import ApiDescription.Proofs.Synthesis.Parameters
import ApiDescription.Schema.DataType

/-!
# Renumbering

Declarations refer to each other by position, and so do the descriptions and data types that are made
of them. Here every position in them is replaced by another one. A position is never taken apart: what
has none stays as it is.

Results:
* `renumber_id`, of each kind of data: replacing every position by itself changes nothing.
* `type?_of_kind`, `label_of_kind` and the like: what is read off a declaration whose kind is a
  renumbered one.
* `renumber_addParameters`: a descriptor may be renumbered before or after its parameters are added.
-/

namespace ApiDescription

variable (σ : DeclId → DeclId)

/-! ## What refers to declarations -/

/-- The attributes of a type with its references renumbered. -/
def TypeInfo.renumber (info : TypeInfo) : TypeInfo :=
  { info with members := info.members.map σ }

/-- What only one kind of declaration has, with its references renumbered. -/
def Declaration.Kind.renumber : Declaration.Kind → Declaration.Kind
  | .type info => .type (info.renumber σ)
  | .method parameters => .method (parameters.map σ)
  | .field enumConstant => .field enumConstant
  | .property getter setter => .property (getter.map σ) (setter.map σ)
  | .parameter => .parameter

/-- The declaration with its references renumbered. -/
def Declaration.renumber (d : Declaration) : Declaration :=
  { d with kind := d.kind.renumber σ }

/-- The handler with its method and its ancestors renumbered. -/
def Handler.renumber (handler : Handler) : Handler :=
  { handler with method := σ handler.method, ancestors := handler.ancestors.map σ }

/-- The error with the position that it is about renumbered. -/
def ModelError.renumber : ModelError → ModelError
  | .danglingReference owner target => .danglingReference owner (σ target)
  | .duplicateType qualifiedName => .duplicateType qualifiedName
  | .unknownDeclaration id => .unknownDeclaration (σ id)
  | .wrongKind owner expected target => .wrongKind owner expected (σ target)

/-! ## What is made of declarations -/

/-- The parameter with the declaration behind it renumbered. -/
def RequestParameter.renumber (p : RequestParameter) : RequestParameter :=
  { p with declaration := p.declaration.map σ }

/-- The descriptor with its handler and the declarations behind its parameters renumbered. -/
def Descriptor.renumber (r : Descriptor) : Descriptor :=
  { r with
    handler := σ r.handler
    entity := r.entity.map (·.renumber σ)
    parameters := r.parameters.map fun _ p => p.renumber σ }

/-- The accessor with its declaration renumbered. -/
def Accessor.renumber (a : Accessor) : Accessor :=
  { a with declaration := σ a.declaration }

/-- The shape of a data type with the declarations of its accessors renumbered. -/
def DataType.Shape.renumber : DataType.Shape → DataType.Shape
  | .complex accessors => .complex (accessors.map (·.renumber σ))
  | .enumeration values unknownValue => .enumeration values unknownValue

/-- The data type with its declaration and those of its accessors renumbered. -/
def DataType.renumber (t : DataType) : DataType :=
  { t with declaration := σ t.declaration, shape := t.shape.renumber σ }

/-! ## Replacing every position by itself -/

@[simp] theorem TypeInfo.renumber_id (info : TypeInfo) : info.renumber id = info := by
  simp [renumber]

@[simp] theorem Declaration.Kind.renumber_id (kind : Declaration.Kind) : kind.renumber id = kind := by
  cases kind <;> simp [renumber]

theorem Declaration.kind_eq_renumber_id (d : Declaration) : d.kind = d.kind.renumber id :=
  d.kind.renumber_id.symm

@[simp] theorem Handler.renumber_id (handler : Handler) : handler.renumber id = handler := by
  simp [renumber]

@[simp] theorem ModelError.renumber_id (e : ModelError) : e.renumber id = e := by
  cases e <;> rfl

@[simp] theorem RequestParameter.renumber_id (p : RequestParameter) : p.renumber id = p := by
  simp [renumber]

@[simp] theorem Descriptor.renumber_id (r : Descriptor) : r.renumber id = r := by
  have hp : (r.parameters.map fun _ p => p.renumber id) = r.parameters :=
    Std.ExtTreeMap.ext_getElem? fun {i} => by simp
  have he : r.entity.map (·.renumber id) = r.entity := by simp
  rw [renumber, hp, he]
  rfl

@[simp] theorem Accessor.renumber_id (a : Accessor) : a.renumber id = a :=
  rfl

@[simp] theorem DataType.renumber_id (t : DataType) : t.renumber id = t := by
  obtain ⟨declaration, name, shape⟩ := t
  cases shape <;> simp [renumber, Shape.renumber]

/-- A description, or its error, with every position replaced by itself. -/
theorem Descriptor.map_renumber_id {ε : Type} (x : Except ε Descriptor) :
    x.map (·.renumber id) = x := by
  cases x with
  | error e => rfl
  | ok r => exact congrArg Except.ok r.renumber_id

/-- A data type, or the error that there is none, with every position replaced by itself. -/
theorem DataType.map_renumber_id (x : Except ModelError DataType) :
    (x.map (·.renumber id)).mapError (·.renumber id) = x := by
  cases x with
  | error e => exact congrArg Except.error e.renumber_id
  | ok type => exact congrArg Except.ok type.renumber_id

/-! ## Reading a renumbered declaration -/

namespace Declaration

variable {σ} {d d' : Declaration}

theorem kindName_renumber (kind : Kind) : (kind.renumber σ).name = kind.name := by
  cases kind <;> rfl

theorem type?_of_kind (h : d'.kind = d.kind.renumber σ) : d'.type? = d.type?.map (·.renumber σ) := by
  unfold type?
  rw [h]
  cases d.kind <;> rfl

theorem typeName?_of_kind (h : d'.kind = d.kind.renumber σ) : d'.typeName? = d.typeName? := by
  rw [typeName?, type?_of_kind h, Option.map_map]
  rfl

theorem isParameter_of_kind (h : d'.kind = d.kind.renumber σ) : d'.isParameter = d.isParameter := by
  rw [isParameter, isParameter, h, kindName_renumber]

theorem isEnumConstant_of_kind (h : d'.kind = d.kind.renumber σ) :
    d'.isEnumConstant = d.isEnumConstant := by
  unfold isEnumConstant
  rw [h]
  cases d.kind <;> rfl

theorem label_of_kind (h : d'.kind = d.kind.renumber σ) (hn : d'.name = d.name) :
    d'.label = d.label := by
  have hf : d'.fullName = d.fullName := by
    unfold fullName
    rw [h, hn]
    cases d.kind <;> rfl
  rw [label, label, hf, h, kindName_renumber]

end Declaration

/-! ## Adding parameters -/

namespace Descriptor

variable {σ}

/-- A descriptor may be renumbered before or after its parameters are added: identities hold no
positions. -/
theorem renumber_addParameters (r : Descriptor) (ps : List RequestParameter) :
    (r.addParameters ps).renumber σ =
      (r.renumber σ).addParameters (ps.map (·.renumber σ)) := by
  have hp : ((r.addParameters ps).renumber σ).parameters =
      ((r.renumber σ).addParameters (ps.map (·.renumber σ))).parameters := by
    refine Std.ExtTreeMap.ext_getElem? fun {i} => ?_
    have hi : (fun p => decide (p.identity = i)) ∘ RequestParameter.renumber σ =
        fun p => decide (p.identity = i) := rfl
    rw [getElem?_addParameters, List.find?_map, hi, renumber, renumber,
      Std.ExtTreeMap.getElem?_map, Std.ExtTreeMap.getElem?_map, getElem?_addParameters]
    cases r.parameters[i]? <;> simp
  rw [addParameters_eq (r.renumber σ), ← hp, renumber, addParameters_eq r]
  rfl

end Descriptor

end ApiDescription
