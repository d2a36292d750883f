import ApiDescription.DocTags
import ApiDescription.Tag.Map

/-!
# Declarations

The named elements of a described program: types, methods, fields, properties and parameters. What
all of them have stands in `Declaration`, what only one kind has in `Declaration.Kind`. Declarations
refer to each other by position.
-/

namespace ApiDescription

/-- The position of a declaration among all declarations. -/
abbrev DeclId := Nat

/-- Who may use a declaration. -/
inductive Visibility where
  | everyone
  /-- Subtypes of the declaring type. -/
  | subtypes
  /-- The declaring package, where no access keyword is written. -/
  | package
  /-- The declaring type alone. -/
  | owner
  /-- The description does not say. -/
  | unrecorded
deriving DecidableEq, Repr

/-- A modifier keyword of a declaration. -/
inductive Modifier where
  | static
  /-- The keyword, which has nothing to do with a tag that marks a member as transient. -/
  | transient
  | final
  | abstract
  | volatile
  | synchronized
deriving DecidableEq, Repr

/-- Every modifier, in the order in which modifiers are listed. -/
def Modifier.all : List Modifier :=
  [.static, .transient, .final, .abstract, .volatile, .synchronized]

/-- A set of modifiers. -/
structure Modifiers where
  has : Modifier → Bool := fun _ => false

namespace Modifiers

instance : EmptyCollection Modifiers := ⟨{}⟩

/-- The set with one more modifier. -/
def insert (modifiers : Modifiers) (modifier : Modifier) : Modifiers :=
  ⟨fun other => other = modifier || modifiers.has other⟩

/-- The modifiers of a list. -/
def ofList (modifiers : List Modifier) : Modifiers :=
  ⟨fun modifier => modifiers.contains modifier⟩

/-- The modifiers of the set in their fixed order. -/
def toList (modifiers : Modifiers) : List Modifier :=
  Modifier.all.filter modifiers.has

theorem ofList_toList (modifiers : Modifiers) : ofList modifiers.toList = modifiers := by
  have h : (ofList modifiers.toList).has = modifiers.has := by
    funext modifier
    cases modifier <;> cases hm : modifiers.has _ <;>
      simp [ofList, toList, Modifier.all, hm]
  cases modifiers
  exact congrArg Modifiers.mk h

end Modifiers

/-- What a type declaration declares. -/
inductive Category where
  | classType
  | interfaceType
  /-- An enumeration, whose constants are fields. -/
  | enumType
deriving DecidableEq, Repr

/-- What only a type declaration has. -/
structure TypeInfo where
  /-- The full name, which no other type of the program has. -/
  qualifiedName : String
  /-- The URI of its schema namespace; absent for the default namespace. -/
  uri : Option String := none
  category : Category := .classType
  /-- The names of its own type parameters. -/
  typeParameters : List String := []
  /-- Its direct supertypes. -/
  supertypes : List TypeRef := []
  /-- Its fields, properties and methods. -/
  members : List DeclId := []

/-- What only one kind of declaration has. -/
inductive Declaration.Kind where
  | type (info : TypeInfo)
  | method (parameters : List DeclId)
  /-- A field, which may be a constant of an enumeration. -/
  | field (enumConstant : Bool)
  /-- A pair of accessor methods, either of which may be missing. -/
  | property (getter setter : Option DeclId)
  | parameter

/-- The kinds of declarations. -/
inductive Declaration.KindName where
  | type
  | method
  | field
  | property
  | parameter
deriving DecidableEq, Repr

/-- The word for a kind. -/
def Declaration.KindName.word : KindName → String
  | .type => "type"
  | .method => "method"
  | .field => "field"
  | .property => "property"
  | .parameter => "parameter"

/-- Which kind it is. -/
def Declaration.Kind.name : Kind → KindName
  | .type _ => .type
  | .method _ => .method
  | .field _ => .field
  | .property _ _ => .property
  | .parameter => .parameter

/-- A named element of the described program. -/
structure Declaration where
  /-- The simple name. -/
  name : String
  visibility : Visibility := .unrecorded
  modifiers : Modifiers := ∅
  tags : TagMap := ∅
  docs : DocTags := ∅
  /-- The type itself, the type of a field, property or parameter, or a method's return type. -/
  declaredType : TypeRef
  kind : Declaration.Kind

namespace Declaration

/-! ## Building declarations -/

/-- The last dotted segment of a qualified name. -/
def simpleName (qualifiedName : String) : String :=
  String.ofList (qualifiedName.toList.reverse.takeWhile (· ≠ '.')).reverse

/-- A class of the given full name. -/
def ofType (qualifiedName : String) : Declaration :=
  { name := simpleName qualifiedName
    declaredType := .named qualifiedName
    kind := .type { qualifiedName } }

/-- A method without parameters. -/
def ofMethod (name : String) (returns : TypeRef) : Declaration :=
  { name, declaredType := returns, kind := .method [] }

/-- A field that is no constant of an enumeration. -/
def ofField (name : String) (type : TypeRef) : Declaration :=
  { name, declaredType := type, kind := .field false }

/-- A constant of an enumeration: public, static and final. -/
def ofEnumConstant (name : String) (type : TypeRef) : Declaration :=
  { name
    visibility := .everyone
    modifiers := .ofList [.static, .final]
    declaredType := type
    kind := .field true }

/-- A property with the given accessor methods. -/
def ofProperty (name : String) (type : TypeRef) (getter setter : Option DeclId) : Declaration :=
  { name, declaredType := type, kind := .property getter setter }

/-- A parameter. -/
def ofParameter (name : String) (type : TypeRef) : Declaration :=
  { name, declaredType := type, kind := .parameter }

/-- The declaration with another visibility. -/
def withVisibility (d : Declaration) (visibility : Visibility) : Declaration :=
  { d with visibility }

/-- The declaration with one more modifier. -/
def withModifier (d : Declaration) (modifier : Modifier) : Declaration :=
  { d with modifiers := d.modifiers.insert modifier }

/-- The declaration with one more occurrence of a tag. -/
def withTag (d : Declaration) (name : String) (tag : Tag) : Declaration :=
  { d with tags := d.tags.insert name tag }

/-- The declaration with one more documentation line. -/
def withDoc (d : Declaration) (name line : String) : Declaration :=
  { d with docs := d.docs.push name line }

/-- The declaration with its type attributes changed; nothing happens to other kinds. -/
def mapType (d : Declaration) (f : TypeInfo → TypeInfo) : Declaration :=
  match d.kind with
  | .type info => { d with kind := .type (f info) }
  | _ => d

/-- The declaration with a method's parameters changed; nothing happens to other kinds. -/
def mapParameters (d : Declaration) (f : List DeclId → List DeclId) : Declaration :=
  match d.kind with
  | .method parameters => { d with kind := .method (f parameters) }
  | _ => d

/-! ## Reading declarations -/

/-- Whether everyone may use the declaration. -/
def isPublic (d : Declaration) : Bool :=
  d.visibility = .everyone

/-- The attributes of a type. -/
def type? (d : Declaration) : Option TypeInfo :=
  match d.kind with
  | .type info => some info
  | _ => none

/-- The parameters of a method. -/
def parameters? (d : Declaration) : Option (List DeclId) :=
  match d.kind with
  | .method parameters => some parameters
  | _ => none

/-- Whether the declaration is a parameter. -/
def isParameter (d : Declaration) : Bool :=
  d.kind.name = .parameter

/-- Whether the declaration is a constant of an enumeration. -/
def isEnumConstant (d : Declaration) : Bool :=
  match d.kind with
  | .field enumConstant => enumConstant
  | _ => false

/-- The name that tells the declaration apart: the full name of a type, the simple name otherwise. -/
def fullName (d : Declaration) : String :=
  match d.kind with
  | .type info => info.qualifiedName
  | _ => d.name

/-- The kind and the name, as messages show them. -/
def label (d : Declaration) : String :=
  d.kind.name.word ++ " " ++ d.fullName

end Declaration

end ApiDescription
