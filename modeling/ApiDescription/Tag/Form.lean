import ApiDescription.Tag.Map
import ApiDescription.TypeRef.Form

/-!
# Tags as JSON

A value of a tag has no mark of its own shape: booleans, integers and strings stand for themselves, a
type for its object, a tag for the object of its elements, and a list for an array. Reading therefore
tries the shapes in that order, so whatever reads as a type is one. Null, fractions and integers
outside 64 bits with sign fit nothing.
-/

namespace ApiDescription

namespace TagValue

mutual

/-- The written form of a value. -/
def toJson : TagValue → Json
  | .bool value => .bool value
  | .int value => .int value.toInt
  | .str value => .str value
  | .type value => value.toJson
  | .tag elements => .obj (toFields elements)
  | .list items => .arr (toJsons items)

/-- The written forms of several values. -/
def toJsons : List TagValue → List Json
  | [] => []
  | item :: rest => item.toJson :: toJsons rest

/-- The written forms of the elements of a tag. -/
def toFields : List (String × TagValue) → List (String × Json)
  | [] => []
  | (name, value) :: rest => (name, value.toJson) :: toFields rest

end

mutual

/-- The value that a part of a tag reads as. -/
def ofJson? : Json → Option TagValue
  | .bool value => some (.bool value)
  | .int value =>
    if Int64.minValue.toInt ≤ value ∧ value ≤ Int64.maxValue.toInt then
      some (.int (Int64.ofInt value))
    else none
  | .str value => some (.str value)
  | .obj fields =>
    match TypeRef.nested? (.obj fields) with
    | some known => some (.type known)
    | none => do return .tag (Tag.ofElements (← ofFields? fields)).elements
  | .arr items =>
    match TypeRef.nested? (.arr items) with
    | some known => some (.type known)
    | none => do return .list (← ofItems? items)
  | .null | .real _ | .unreadable => none
termination_by structural value => value

/-- The values that the items of an array read as. -/
def ofItems? : List Json → Option (List TagValue)
  | [] => some []
  | item :: rest => do return (← ofJson? item) :: (← ofItems? rest)
termination_by structural items => items

/-- The elements that the fields of an object read as, with repeated names. -/
def ofFields? : List (String × Json) → Option (List (String × TagValue))
  | [] => some []
  | (name, value) :: rest => do return (name, ← ofJson? value) :: (← ofFields? rest)
termination_by structural fields => fields

end

end TagValue

namespace Tag

/-- The written form of a tag. -/
def toJson (tag : Tag) : Json :=
  .obj (TagValue.toFields tag.elements)

/-- The tag that an object reads as. -/
def ofJson? : Json → Option Tag
  | .obj fields => ofElements <$> TagValue.ofFields? fields
  | _ => none

end Tag

namespace TagMap

/-- The written form of the tags of a declaration. -/
def toJson (tags : TagMap) : Json :=
  Json.ofNameMap (fun occurrences => .arr (occurrences.map Tag.toJson)) tags.occurrences

/-- The tags that an object of arrays of tags reads as. -/
def ofJson? (value : Json) : Option TagMap :=
  (⟨·⟩) <$> value.nameMap? (·.list? Tag.ofJson?)

end TagMap

end ApiDescription
