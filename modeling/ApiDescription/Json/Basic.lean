import ApiDescription.NameMap

/-!
# JSON values

`Json` keeps what the readers of documents look at: the order and the repetition of object keys, and
which numbers are integers. A number is an `int` when it is written without fraction, exponent or
minus zero and lies between `-2^63` and `2^64 - 1`; every other number keeps its spelling.

A part of a text that obeys the grammar and still has no value (a lone surrogate, a number too large
to be represented, nesting beyond the depth limit) is `unreadable`. Whoever skips it may; whoever
reads it fails.
-/

namespace ApiDescription

/-- A JSON value as it was written. -/
inductive Json where
  | null
  | bool (value : Bool)
  /-- An integer of at most 64 bits, signed or unsigned. -/
  | int (value : Int)
  /-- Any other number, as written. -/
  | real (literal : String)
  | str (value : String)
  | arr (items : List Json)
  /-- The fields in the order written, with repeated keys. -/
  | obj (fields : List (String × Json))
  /-- A well-formed part of a text that stands for no value. -/
  | unreadable

namespace Json

instance : Inhabited Json := ⟨.null⟩

/-- A value of a list that may be missing, written as null when it is. -/
def ofOption {α : Type} (toJson : α → Json) : Option α → Json
  | none => .null
  | some a => toJson a

/-- A list of strings. -/
def strings (items : List String) : Json :=
  .arr (items.map .str)

/-- A natural number. -/
def nat (n : Nat) : Json :=
  .int n

/-- A map as an object, with its keys in order. -/
def ofNameMap {α : Type} (toJson : α → Json) (m : NameMap α) : Json :=
  .obj (m.toList.map fun (name, a) => (name, toJson a))

/-- The value of the last field of a key. -/
def field? (key : String) : Json → Option Json
  | .obj fields => fields.reverse.lookup key
  | _ => none

/-! ## Reading parts -/

/-- The items of an array, each read by `read`; nothing if one of them does not read. -/
def list? {α : Type} (read : Json → Option α) : Json → Option (List α)
  | .arr items => items.mapM read
  | _ => none

/-- The string that a value is. -/
def str? : Json → Option String
  | .str value => some value
  | _ => none

/-- The natural number that a value is. -/
def nat? : Json → Option Nat
  | .int (.ofNat n) => some n
  | _ => none

/-- The fields of an object, each read by `read`, where the last of a name counts; nothing if one of
them does not read, whether it counts or not. -/
def nameMap? {α : Type} (read : Json → Option α) : Json → Option (NameMap α)
  | .obj fields =>
    NameMap.ofPairs <$> fields.mapM fun (name, value) => do return (name, ← read value)
  | _ => none

/-- A value that may be null. -/
def nullable? {α : Type} (read : Json → Option α) : Json → Option (Option α)
  | .null => some none
  | value => some <$> read value

/-! ## Readability -/

mutual

/-- No part of the value is unreadable. -/
def readable : Json → Bool
  | .null | .bool _ | .int _ | .real _ | .str _ => true
  | .arr items => readableItems items
  | .obj fields => readableFields fields
  | .unreadable => false

/-- No part of any item is unreadable. -/
def readableItems : List Json → Bool
  | [] => true
  | item :: rest => item.readable && readableItems rest

/-- No part of any field is unreadable. -/
def readableFields : List (String × Json) → Bool
  | [] => true
  | (_, value) :: rest => value.readable && readableFields rest

end

/-! ## Canonical order -/

mutual

/-- The same value with the keys of every object in code point order, each once with its last value. -/
def sortKeys : Json → Json
  | .arr items => .arr (sortItems items)
  | .obj fields => .obj (NameMap.ofPairs (sortFields fields)).toList
  | other => other

/-- Every item with its keys sorted. -/
def sortItems : List Json → List Json
  | [] => []
  | item :: rest => item.sortKeys :: sortItems rest

/-- Every field with the keys inside its value sorted. -/
def sortFields : List (String × Json) → List (String × Json)
  | [] => []
  | (key, value) :: rest => (key, value.sortKeys) :: sortFields rest

end

end Json

end ApiDescription
