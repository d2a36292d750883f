import ApiDescription.Accessor

/-!
# Data types

What a type declaration looks like in a schema: a complex type with its accessors, or an enumeration
with its constants. Both list members in their order. The name of a member in the schema is given by
its binding tags, or is its declared name.
-/

namespace ApiDescription

/-- How the value of an accessor is reached. -/
inductive AccessorKind where
  | field
  /-- Through accessor methods. -/
  | property
deriving DecidableEq, Repr

/-- A member that takes part in a schema. -/
structure Accessor where
  /-- The name in the schema. -/
  name : String
  declaration : DeclId
  type : TypeRef
  kind : AccessorKind

/-- What a type is in a schema. -/
inductive DataType.Shape where
  | complex (accessors : List Accessor)
  /-- An enumeration; the constant for unrecognized values is not among the values. -/
  | enumeration (values : List String) (unknownValue : Option String)

/-- A type of a schema. -/
structure DataType where
  declaration : DeclId
  qualifiedName : String
  shape : DataType.Shape

namespace DataType

/-- The name by which a binding tag says that the declared name holds. -/
def defaultName : String := "##default"

/-- The name of a member in the schema: the first that an element of its binding tags gives, in the
order of tag names and occurrences, and its declared name if they give none. -/
def schemaName (binding : BindingTags) (member : Declaration) (element : String) : String :=
  let names := ((member.tags.names.filter binding.isBindingTag).flatMap member.tags.get).filterMap
    (·.str? element)
  (names.find? fun name => name ≠ "" && name ≠ defaultName).getD member.name

/-- How the value of a member is reached; nothing for members that hold no value. -/
def accessorKind? (member : Declaration) : Option AccessorKind :=
  match member.kind with
  | .field _ => some .field
  | .property _ _ | .method _ => some .property
  | .type _ | .parameter => none

/-- The accessor that a member is. -/
def accessor? (filter : AccessorFilter) (model : Model) (id : DeclId) (member : Declaration) :
    Option Accessor :=
  if filter.accepts model member then
    (accessorKind? member).map fun kind =>
      { name := schemaName filter.binding member "name"
        declaration := id
        type := member.declaredType
        kind }
  else none

/-- The constants of an enumeration among its members: the values, and the constant for unrecognized
values, of which the last counts. -/
def enumeration (binding : BindingTags) (members : List Declaration) : Shape :=
  let (unknown, known) := (members.filter (·.isEnumConstant)).partition
    (·.tags.contains binding.unknownEnumValue)
  .enumeration (known.map (schemaName binding · "value"))
    (unknown.getLast?.map (schemaName binding · "value"))

/-- The data type of the type at a position. -/
def ofModel (filter : AccessorFilter) (model : Model) (id : DeclId) : Except ModelError DataType := do
  let d ← model.decl id
  match d.type? with
  | none => .error (.wrongKind "namespace assembly" .type id)
  | some info =>
    let members := model.members id
    return {
      declaration := id
      qualifiedName := info.qualifiedName
      shape :=
        if info.category = .enumType then enumeration filter.binding (members.map (·.2))
        else .complex (members.filterMap fun (member, d) => accessor? filter model member d) }

end DataType

end ApiDescription
