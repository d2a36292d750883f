import ApiDescription.Model.Basic

/-!
# Building models step by step

A `ModelBuilder` numbers declarations in the order in which they are added. A declaration may be added
as a member of a type or as a parameter of a method; an owner of another kind, or a position where
nothing stands, gets no link and the declaration is added all the same.
-/

namespace ApiDescription

/-- The declarations added so far. -/
structure ModelBuilder where
  decls : List Declaration := []

namespace ModelBuilder

instance : EmptyCollection ModelBuilder := ⟨{}⟩

/-- The position that the next declaration gets. -/
def nextId (b : ModelBuilder) : DeclId :=
  b.decls.length

/-- Adds a declaration at `nextId`. -/
def add (b : ModelBuilder) (d : Declaration) : ModelBuilder :=
  ⟨b.decls ++ [d]⟩

/-- Changes the declaration at a position. -/
def change (b : ModelBuilder) (id : DeclId) (f : Declaration → Declaration) : ModelBuilder :=
  ⟨b.decls.modify id f⟩

/-- The declaration at a position. -/
def get? (b : ModelBuilder) (id : DeclId) : Option Declaration :=
  b.decls[id]?

/-- Adds a declaration as the last member of a type. -/
def addMember (b : ModelBuilder) (owner : DeclId) (member : Declaration) : ModelBuilder :=
  (b.add member).change owner fun d =>
    d.mapType fun info => { info with members := info.members ++ [b.nextId] }

/-- Adds a declaration as the last parameter of a method. -/
def addParameter (b : ModelBuilder) (method : DeclId) (parameter : Declaration) : ModelBuilder :=
  (b.add parameter).change method fun d => d.mapParameters (· ++ [b.nextId])

/-- The model of the declarations, or their first fault. -/
def finish (b : ModelBuilder) : Except ModelError Model :=
  Model.ofDeclarations b.decls

end ModelBuilder

end ApiDescription
