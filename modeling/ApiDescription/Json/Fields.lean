import ApiDescription.Json.Basic

/-!
# Reading the attributes of an object

How a record is read from the fields of an object. An attribute may be required or have a default; in
either case its key must not be repeated. Words of a fixed list may be given as a string or as an
object with the word as its only key.
-/

namespace ApiDescription.Json

/-- Reads an attribute that an object must hold once. -/
def required? {α : Type} (fields : List (String × Json)) (key : String)
    (read : Json → Option α) : Option α :=
  match fields.filter (·.1 = key) with
  | [(_, value)] => read value
  | _ => none

/-- Reads an attribute that an object may hold once. -/
def optional? {α : Type} (fields : List (String × Json)) (key : String) (default : α)
    (read : Json → Option α) : Option α :=
  match fields.filter (·.1 = key) with
  | [] => some default
  | [(_, value)] => read value
  | _ => none

/-- A word, by itself or as the only key of an object whose value is a `unit`. -/
def wordOf? (unit : Json → Bool) : Json → Option String
  | .str word => some word
  | .obj [(word, value)] => if unit value then some word else none
  | _ => none

/-- The Boolean that a value is. -/
def bool? : Json → Option Bool
  | .bool value => some value
  | _ => none

/-- Whether a value is null. -/
def isNull : Json → Bool
  | .null => true
  | _ => false

/-- Whether a value is null or an object without fields. -/
def isNullOrEmpty : Json → Bool
  | .null | .obj [] => true
  | _ => false

end ApiDescription.Json
