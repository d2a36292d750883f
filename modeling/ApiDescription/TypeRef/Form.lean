import ApiDescription.Json.Basic
import ApiDescription.TypeRef.Basic

/-!
# Types as JSON

A type is written as an object with its kind and parts. It is read from that form, with other keys
ignored and absent type arguments read as none, and from an array of the kind and the parts.

Inside another value the kind may also be given by its position in `Kind.all` (`nested?`); where a
type stands by itself only the word will do (`ofJson?`).
-/

namespace ApiDescription.TypeRef

/-- The kinds of types. -/
inductive Kind where
  | void
  | primitive
  | declared
  | array
  | var
  | unknown
deriving DecidableEq, Repr

/-- The kinds by position. -/
def Kind.all : List Kind :=
  [.void, .primitive, .declared, .array, .var, .unknown]

/-- The written form of a kind. -/
def Kind.word : Kind → String
  | .void => "void"
  | .primitive => "primitive"
  | .declared => "declared"
  | .array => "array"
  | .var => "variable"
  | .unknown => "opaque"

/-- The kind given by its word or position. -/
def Kind.ofJson? : Json → Option Kind
  | .str word => all.find? (·.word = word)
  | .int (.ofNat position) => all[position]?
  | _ => none

mutual

/-- The written form of a type. -/
def toJson : TypeRef → Json
  | .void => .obj [("kind", .str Kind.void.word)]
  | .primitive name => .obj [("kind", .str Kind.primitive.word), ("name", .str name)]
  | .declared name args =>
    .obj [("kind", .str Kind.declared.word), ("name", .str name), ("args", .arr (toJsons args))]
  | .array element => .obj [("kind", .str Kind.array.word), ("element", element.toJson)]
  | .var name => .obj [("kind", .str Kind.var.word), ("name", .str name)]
  | .unknown => .obj [("kind", .str Kind.unknown.word)]

/-- The written forms of several types. -/
def toJsons : List TypeRef → List Json
  | [] => []
  | type :: rest => type.toJson :: toJsons rest

end

/-- What the fields of an object read as, for each key a type may have and in the order written. -/
structure Fields where
  kind : List (Option Kind) := []
  name : List (Option String) := []
  args : List (Option (List TypeRef)) := []
  element : List (Option TypeRef) := []

/-- The reading of a key that occurs exactly once. -/
def once? {α : Type} : List (Option α) → Option α
  | [reading] => reading
  | _ => none

/-- The type that the fields of an object describe. -/
def Fields.type? (fields : Fields) : Option TypeRef := do
  match ← once? fields.kind with
  | .void => some .void
  | .primitive => .primitive <$> once? fields.name
  | .declared =>
    let name ← once? fields.name
    let args ← if fields.args.isEmpty then some [] else once? fields.args
    some (.declared name args)
  | .array => .array <$> once? fields.element
  | .var => .var <$> once? fields.name
  | .unknown => some .unknown

mutual

/-- The type that a value inside another value reads as. -/
def nested? : Json → Option TypeRef
  | .obj fields => (readFields fields).type?
  | .arr [kind] => do
    match ← Kind.ofJson? kind with
    | .void => some .void
    | .unknown => some .unknown
    | _ => none
  | .arr [kind, part] => do
    match ← Kind.ofJson? kind with
    | .primitive => .primitive <$> part.str?
    | .declared => .named <$> part.str?
    | .array => .array <$> nested? part
    | .var => .var <$> part.str?
    | _ => none
  | .arr [kind, name, args] => do
    match ← Kind.ofJson? kind with
    | .declared => return .declared (← name.str?) (← nestedArgs? args)
    | _ => none
  | _ => none
termination_by structural value => value

/-- The types that a list of values inside another value reads as. -/
def nestedArgs? : Json → Option (List TypeRef)
  | .arr items => nestedItems? items
  | _ => none
termination_by structural value => value

/-- The types that several values inside another value read as. -/
def nestedItems? : List Json → Option (List TypeRef)
  | [] => some []
  | item :: rest => do return (← nested? item) :: (← nestedItems? rest)
termination_by structural items => items

/-- What the fields of an object read as. -/
def readFields : List (String × Json) → Fields
  | [] => {}
  | (key, value) :: rest =>
    let fields := readFields rest
    match key with
    | "kind" => { fields with kind := Kind.ofJson? value :: fields.kind }
    | "name" => { fields with name := value.str? :: fields.name }
    | "args" => { fields with args := nestedArgs? value :: fields.args }
    | "element" => { fields with element := nested? value :: fields.element }
    | _ => fields
termination_by structural fields => fields

end

/-- The kind at the top of a value is given by a word. -/
def kindIsWord : Json → Bool
  | .obj fields => fields.all fun (key, value) => key ≠ "kind" || value.str?.isSome
  | .arr (kind :: _) => kind.str?.isSome
  | _ => false

/-- The type that a value standing by itself reads as. -/
def ofJson? (value : Json) : Option TypeRef :=
  if value.readable && kindIsWord value then nested? value else none

end ApiDescription.TypeRef
