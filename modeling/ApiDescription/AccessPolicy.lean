import ApiDescription.Text.Blank

/-!
# Access policies

Which members of a type take part in its schema when no tag says so.

* `AccessPolicy.parse?` reads a name leniently: blanks around it, the case of its letters and the
  choice between `-` and `_` do not matter.
-/

namespace ApiDescription

/-- Which members take part by default. -/
inductive AccessPolicy where
  /-- Only members with a tag. -/
  | tagged
  /-- Properties with a public getter and a public setter. -/
  | property
  /-- Fields that are neither static nor transient. -/
  | field
  /-- Public fields, and properties as under `property`. -/
  | publicMember
deriving DecidableEq, Repr

namespace AccessPolicy

/-- Every policy. -/
def all : List AccessPolicy :=
  [.tagged, .property, .field, .publicMember]

/-- The name of a policy. -/
def name : AccessPolicy → String
  | .tagged => "NONE"
  | .property => "PROPERTY"
  | .field => "FIELD"
  | .publicMember => "PUBLIC_MEMBER"

/-- The policy of exactly this name. -/
def ofName? (name : String) : Option AccessPolicy :=
  all.find? (·.name = name)

/-- The spelling of a name that lenient reading compares. -/
def normalize (text : String) : String :=
  String.ofList ((Text.trimChars text.toList).map fun c => if c = '-' then '_' else c.toUpper)

/-- The policy that a text names, read leniently. -/
def parse? (text : String) : Option AccessPolicy :=
  ofName? (normalize text)

end AccessPolicy

end ApiDescription
