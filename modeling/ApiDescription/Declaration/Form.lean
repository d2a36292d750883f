import ApiDescription.Declaration.Basic
import ApiDescription.Json.Fields
import ApiDescription.Tag.Form

/-!
# Declarations as JSON

A declaration is an object of its common attributes, its kind, and the attributes of that kind.
Attributes with a default may be left out. Keys that mean nothing for the kind are ignored, a
repeated key that means something makes the object unreadable.

A word may also be written as an object with the word as its only key (`wordOf?`), and the kind by
its position (`KindName.ofJson?`).
-/

namespace ApiDescription

/-! ## Words -/

/-- The written form of a visibility. -/
def Visibility.word : Visibility → String
  | .everyone => "public"
  | .subtypes => "protected"
  | .package => "package"
  | .owner => "private"
  | .unrecorded => "unknown"

/-- Every visibility. -/
def Visibility.all : List Visibility :=
  [.everyone, .subtypes, .package, .owner, .unrecorded]

/-- The visibility that a value names. -/
def Visibility.ofJson? (value : Json) : Option Visibility := do
  let word ← value.wordOf? Json.isNull
  all.find? (·.word = word)

/-- The written form of a modifier. -/
def Modifier.word : Modifier → String
  | .static => "static"
  | .transient => "transient"
  | .final => "final"
  | .abstract => "abstract"
  | .volatile => "volatile"
  | .synchronized => "synchronized"

/-- The modifier that a value names. -/
def Modifier.ofJson? (value : Json) : Option Modifier := do
  let word ← value.wordOf? Json.isNull
  all.find? (·.word = word)

/-- The written form of a category. -/
def Category.word : Category → String
  | .classType => "class"
  | .interfaceType => "interface"
  | .enumType => "enum"

/-- Every category. -/
def Category.all : List Category :=
  [.classType, .interfaceType, .enumType]

/-- The category that a value names. -/
def Category.ofJson? (value : Json) : Option Category := do
  let word ← value.wordOf? Json.isNullOrEmpty
  all.find? (·.word = word)

/-! ## Attributes -/

namespace DocTags

/-- The written form of the documentation of a declaration. -/
def toJson (docs : DocTags) : Json :=
  Json.ofNameMap Json.strings docs.lines

/-- The documentation that an object of arrays of strings reads as. -/
def ofJson? (value : Json) : Option DocTags :=
  (⟨·⟩) <$> value.nameMap? (·.list? Json.str?)

end DocTags

namespace TypeInfo

/-- The attributes of a type in written form. -/
def toFields (info : TypeInfo) : List (String × Json) :=
  [("qualified_name", .str info.qualifiedName), ("namespace", Json.ofOption .str info.uri),
    ("category", .str info.category.word), ("type_parameters", Json.strings info.typeParameters),
    ("supertypes", .arr (info.supertypes.map TypeRef.toJson)),
    ("members", .arr (info.members.map Json.nat))]

/-- The attributes of a type that the fields of an object hold. -/
def ofFields? (fields : List (String × Json)) : Option TypeInfo := do
  return {
    qualifiedName := ← Json.required? fields "qualified_name" Json.str?
    uri := ← Json.optional? fields "namespace" none (Json.nullable? Json.str?)
    category := ← Json.optional? fields "category" .classType Category.ofJson?
    typeParameters := ← Json.optional? fields "type_parameters" [] (Json.list? Json.str?)
    supertypes := ← Json.optional? fields "supertypes" [] (Json.list? TypeRef.nested?)
    members := ← Json.optional? fields "members" [] (Json.list? Json.nat?) }

end TypeInfo

namespace Declaration

/-- The kinds by position. -/
def KindName.all : List KindName :=
  [.type, .method, .field, .property, .parameter]

/-- The kind given by its word or position. -/
def KindName.ofJson? : Json → Option KindName
  | .str word => all.find? (·.word = word)
  | .int (.ofNat position) => all[position]?
  | _ => none

/-- The kind and its attributes in written form. -/
def Kind.toFields : Kind → List (String × Json)
  | .type info => ("kind", .str KindName.type.word) :: info.toFields
  | .method parameters =>
    [("kind", .str KindName.method.word), ("parameters", .arr (parameters.map Json.nat))]
  | .field enumConstant =>
    [("kind", .str KindName.field.word), ("enum_constant", .bool enumConstant)]
  | .property getter setter =>
    [("kind", .str KindName.property.word), ("getter", Json.ofOption Json.nat getter),
      ("setter", Json.ofOption Json.nat setter)]
  | .parameter => [("kind", .str KindName.parameter.word)]

/-- The kind, with its attributes, that the fields of an object hold. -/
def Kind.ofFields? (fields : List (String × Json)) : Option Kind := do
  match ← Json.required? fields "kind" KindName.ofJson? with
  | .type => return .type (← TypeInfo.ofFields? fields)
  | .method => return .method (← Json.optional? fields "parameters" [] (Json.list? Json.nat?))
  | .field => return .field (← Json.optional? fields "enum_constant" false Json.bool?)
  | .property =>
    let getter ← Json.optional? fields "getter" none (Json.nullable? Json.nat?)
    let setter ← Json.optional? fields "setter" none (Json.nullable? Json.nat?)
    return .property getter setter
  | .parameter => return .parameter

/-- The written form of a declaration. -/
def toJson (d : Declaration) : Json :=
  .obj ([("name", .str d.name), ("visibility", .str d.visibility.word),
    ("modifiers", .arr (d.modifiers.toList.map fun m => .str m.word)),
    ("tags", d.tags.toJson), ("docs", d.docs.toJson),
    ("declared_type", d.declaredType.toJson)] ++ d.kind.toFields)

/-- The declaration that a value reads as. -/
def ofJson? (value : Json) : Option Declaration := do
  let .obj fields := value | none
  if value.readable = false then none
  return {
    name := ← Json.required? fields "name" Json.str?
    visibility := ← Json.optional? fields "visibility" .unrecorded Visibility.ofJson?
    modifiers := ← Json.optional? fields "modifiers" ∅ fun modifiers =>
      Modifiers.ofList <$> modifiers.list? Modifier.ofJson?
    tags := ← Json.optional? fields "tags" ∅ TagMap.ofJson?
    docs := ← Json.optional? fields "docs" ∅ DocTags.ofJson?
    declaredType := ← Json.required? fields "declared_type" TypeRef.ofJson?
    kind := ← Kind.ofFields? fields }

end Declaration

end ApiDescription
