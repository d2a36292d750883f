import ApiDescription.Declaration.Basic

/-!
# Declaration models

A `Model` is a list of declarations whose references are in order: members and accessors exist,
parameters of methods exist and are parameters, and no two types share a qualified name. It is made by
`Model.ofDeclarations`, which reports the first fault in the order of positions otherwise. Validation goes
through the declarations once and builds the index by which types are found on the way.

* `indexFrom_eq_ok_iff`: what validation goes through, and the index it ends with.
* `fault?_eq_none_iff`: there is no fault exactly if the declarations are consistent.
* `ofDeclarations_eq_ok_iff`: a model is made exactly of consistent declarations, unchanged.
-/

namespace ApiDescription

/-- Why declarations form no model, or why a model does not answer. -/
inductive ModelError where
  /-- A declaration refers to a position behind the last. -/
  | danglingReference (owner : String) (target : DeclId)
  /-- Two types have this qualified name. -/
  | duplicateType (qualifiedName : String)
  /-- No declaration stands at this position. -/
  | unknownDeclaration (id : DeclId)
  /-- The declaration at this position is not of the kind that is needed there. -/
  | wrongKind (owner : String) (expected : Declaration.KindName) (target : DeclId)
deriving DecidableEq, Repr

/-- A position as messages show it. -/
def DeclId.display (id : DeclId) : String :=
  "#" ++ id.repr

/-- The text of an error. -/
def ModelError.message : ModelError → String
  | .danglingReference owner target =>
    owner ++ " references unknown declaration " ++ DeclId.display target
  | .duplicateType qualifiedName => "duplicate type declaration " ++ qualifiedName
  | .unknownDeclaration id => "unknown declaration " ++ DeclId.display id
  | .wrongKind owner expected target =>
    owner ++ " expects " ++ expected.word ++ " at " ++ DeclId.display target

/-! ## Consistency -/

/-- The references of a declaration are in order. -/
def Declaration.WellLinked (decls : List Declaration) (d : Declaration) : Prop :=
  match d.kind with
  | .type info => ∀ id ∈ info.members, id < decls.length
  | .method parameters => ∀ id ∈ parameters, ∃ p, decls[id]? = some p ∧ p.isParameter = true
  | .property getter setter => ∀ id ∈ getter.toList ++ setter.toList, id < decls.length
  | .field _ | .parameter => True

/-- The qualified name of a type declaration. -/
def Declaration.typeName? (d : Declaration) : Option String :=
  d.type?.map (·.qualifiedName)

/-- All references are in order, and no two types share a qualified name. -/
structure Consistent (decls : List Declaration) : Prop where
  linked : ∀ d ∈ decls, d.WellLinked decls
  nodup : (decls.filterMap Declaration.typeName?).Nodup

/-- The fault of a reference to a declaration of any kind. -/
def danglingFault? (decls : List Declaration) (owner : Declaration) (id : DeclId) :
    Option ModelError :=
  if id < decls.length then none else some (.danglingReference owner.label id)

/-- The fault of a reference to a parameter. -/
def parameterFault? (decls : List Declaration) (owner : Declaration) (id : DeclId) :
    Option ModelError :=
  match decls[id]? with
  | none => some (.danglingReference owner.label id)
  | some p => if p.isParameter then none else some (.wrongKind owner.label .parameter id)

/-- The fault of the first reference of a declaration that is not in order. -/
def referenceFault? (decls : List Declaration) (d : Declaration) : Option ModelError :=
  match d.kind with
  | .type info => info.members.findSome? (danglingFault? decls d)
  | .method parameters => parameters.findSome? (parameterFault? decls d)
  | .property getter setter => (getter.toList ++ setter.toList).findSome? (danglingFault? decls d)
  | .field _ | .parameter => none

/-- The fault of a declaration behind those whose types are in the index. A type's references come before
its name. -/
def Declaration.fault? (decls : List Declaration) (index : NameMap DeclId) (d : Declaration) :
    Option ModelError :=
  (referenceFault? decls d).or
    (d.typeName?.bind fun name => if index.contains name then some (.duplicateType name) else none)

/-- Enters the declaration at a position into an index, if it is a type. -/
def enter (index : NameMap DeclId) (id : DeclId) (d : Declaration) : NameMap DeclId :=
  match d.typeName? with
  | some name => index.insert name id
  | none => index

/-- Validates declarations, the first of which stands at `id`, and enters them into the index one by one;
the first fault ends this. -/
def indexFrom (decls : List Declaration) (index : NameMap DeclId) (id : DeclId) :
    List Declaration → Except ModelError (NameMap DeclId)
  | [] => .ok index
  | d :: rest =>
    match d.fault? decls index with
    | some e => .error e
    | none => indexFrom decls (enter index id d) (id + 1) rest

/-- The index of declarations that may have faults: of two types with one name the later one counts. -/
def typeIndex (decls : List Declaration) : NameMap DeclId :=
  decls.zipIdx.foldl (fun index (d, id) => enter index id d) ∅

/-- The first fault of a list of declarations. -/
def fault? (decls : List Declaration) : Option ModelError :=
  match indexFrom decls ∅ 0 decls with
  | .ok _ => none
  | .error e => some e

theorem danglingFault?_eq_none_iff {decls : List Declaration} {d : Declaration} {id : DeclId} :
    danglingFault? decls d id = none ↔ id < decls.length := by
  simp [danglingFault?]

theorem parameterFault?_eq_none_iff {decls : List Declaration} {d : Declaration} {id : DeclId} :
    parameterFault? decls d id = none ↔ ∃ p, decls[id]? = some p ∧ p.isParameter = true := by
  unfold parameterFault?
  cases decls[id]? <;> simp

theorem referenceFault?_eq_none_iff {decls : List Declaration} {d : Declaration} :
    referenceFault? decls d = none ↔ d.WellLinked decls := by
  unfold referenceFault? Declaration.WellLinked
  split <;>
    simp only [List.findSome?_eq_none_iff, danglingFault?_eq_none_iff, parameterFault?_eq_none_iff]

theorem Declaration.fault?_eq_none_iff {decls : List Declaration} {index : NameMap DeclId}
    {d : Declaration} :
    d.fault? decls index = none ↔ d.WellLinked decls ∧ ∀ name, d.typeName? = some name → name ∉ index := by
  rw [Declaration.fault?, Option.or_eq_none_iff, referenceFault?_eq_none_iff]
  simp [Option.bind_eq_none_iff]

theorem mem_enter {index : NameMap DeclId} {id : DeclId} {d : Declaration} {name : String} :
    name ∈ enter index id d ↔ d.typeName? = some name ∨ name ∈ index := by
  unfold enter
  cases d.typeName? <;> simp

/-- Validation goes through if every reference is in order and every name is new, and then every type has
been entered. -/
theorem indexFrom_eq_ok_iff {decls : List Declaration} {index index' : NameMap DeclId} {id : DeclId}
    {rest : List Declaration} :
    indexFrom decls index id rest = .ok index' ↔
      ((∀ d ∈ rest, d.WellLinked decls) ∧ (rest.filterMap Declaration.typeName?).Nodup ∧
        ∀ name ∈ rest.filterMap Declaration.typeName?, name ∉ index) ∧
      index' = (rest.zipIdx id).foldl (fun index (d, id) => enter index id d) index := by
  induction rest generalizing index id with
  | nil => simp [indexFrom, eq_comm]
  | cons d rest ih =>
    unfold indexFrom
    rw [List.zipIdx_cons, List.foldl_cons]
    cases hf : d.fault? decls index with
    | some e =>
      have hfault : ¬ (d.WellLinked decls ∧ ∀ name, d.typeName? = some name → name ∉ index) :=
        fun h => by simp [Declaration.fault?_eq_none_iff.mpr h] at hf
      simp only [reduceCtorEq, false_iff]
      rintro ⟨⟨hl, -, hnew⟩, -⟩
      refine hfault ⟨hl d List.mem_cons_self, fun name hn => hnew name ?_⟩
      exact List.mem_filterMap.mpr ⟨d, List.mem_cons_self, hn⟩
    | none =>
      obtain ⟨hd, hnew⟩ := Declaration.fault?_eq_none_iff.mp hf
      simp only [ih, mem_enter, List.forall_mem_cons, hd, true_and]
      refine and_congr_left fun _ => and_congr_right fun _ => ?_
      cases hn : d.typeName? with
      | none => simp [hn]
      | some name =>
        simp only [hn, List.filterMap_cons, List.nodup_cons, List.forall_mem_cons, Option.some.injEq,
          not_or]
        constructor
        · rintro ⟨hnd, hall⟩
          exact ⟨⟨fun hm => (hall name hm).1 rfl, hnd⟩, hnew name hn, fun n hm => (hall n hm).2⟩
        · rintro ⟨⟨hnot, hnd⟩, -, hall⟩
          exact ⟨hnd, fun n hm => ⟨fun he => hnot (he ▸ hm), hall n hm⟩⟩

theorem indexFrom_eq_ok_iff_consistent {decls : List Declaration} {index : NameMap DeclId} :
    indexFrom decls ∅ 0 decls = .ok index ↔ Consistent decls ∧ index = typeIndex decls := by
  rw [indexFrom_eq_ok_iff, typeIndex]
  refine and_congr_left fun _ => ⟨fun h => ⟨h.1, h.2.1⟩, fun h => ⟨h.linked, h.nodup, ?_⟩⟩
  simp

theorem fault?_eq_none_iff {decls : List Declaration} : fault? decls = none ↔ Consistent decls := by
  unfold fault?
  split
  · next index h => simp [(indexFrom_eq_ok_iff_consistent.mp h).1]
  · next e h =>
    simp only [reduceCtorEq, false_iff]
    intro hc
    rw [indexFrom_eq_ok_iff_consistent.mpr ⟨hc, rfl⟩] at h
    cases h

/-! ## Models -/

/-- Declarations whose references are in order, with the positions of the types by name. -/
structure Model where
  decls : List Declaration
  consistent : Consistent decls
  index : NameMap DeclId := typeIndex decls
  index_eq : index = typeIndex decls := by rfl

namespace Model

/-- The model of a list of declarations, or their first fault. -/
def ofDeclarations (decls : List Declaration) : Except ModelError Model :=
  match h : indexFrom decls ∅ 0 decls with
  | .error e => .error e
  | .ok index =>
    have hindex := indexFrom_eq_ok_iff_consistent.mp h
    .ok ⟨decls, hindex.1, index, hindex.2⟩

/-- Models of the same declarations are equal. -/
theorem ext_decls {model model' : Model} (h : model.decls = model'.decls) : model = model' := by
  obtain ⟨decls, _, index, rfl⟩ := model
  obtain ⟨decls', _, index', rfl⟩ := model'
  obtain rfl : decls = decls' := h
  rfl

theorem ofDeclarations_eq_ok_iff {decls : List Declaration} {model : Model} :
    ofDeclarations decls = .ok model ↔ Consistent decls ∧ model.decls = decls := by
  unfold ofDeclarations
  split
  · next e h =>
    simp only [reduceCtorEq, false_iff, not_and]
    intro hc
    rw [indexFrom_eq_ok_iff_consistent.mpr ⟨hc, rfl⟩] at h
    cases h
  · next index h =>
    have hc := (indexFrom_eq_ok_iff_consistent.mp h).1
    constructor
    · rintro ⟨⟩
      exact ⟨hc, rfl⟩
    · rintro ⟨-, hdecls⟩
      exact congrArg Except.ok (ext_decls hdecls.symm)

theorem ofDeclarations_eq_error_iff {decls : List Declaration} {e : ModelError} :
    ofDeclarations decls = .error e ↔ fault? decls = some e := by
  unfold ofDeclarations fault?
  split <;> simp_all

/-- The model without declarations. -/
def empty : Model where
  decls := []
  consistent := ⟨by simp, by simp⟩

instance : EmptyCollection Model := ⟨empty⟩

/-- The number of declarations. -/
def size (model : Model) : Nat :=
  model.decls.length

/-- The declaration at a position. -/
def get? (model : Model) (id : DeclId) : Option Declaration :=
  model.decls[id]?

/-- The declaration at a position, or the error that there is none. -/
def decl (model : Model) (id : DeclId) : Except ModelError Declaration :=
  match model.get? id with
  | some d => .ok d
  | none => .error (.unknownDeclaration id)

/-- Every declaration with its position. -/
def entries (model : Model) : List (DeclId × Declaration) :=
  model.decls.zipIdx.map fun (d, id) => (id, d)

/-- Every type declaration with its position. -/
def types (model : Model) : List (DeclId × Declaration) :=
  model.entries.filter fun (_, d) => d.type?.isSome

/-- The type declaration of a qualified name, with its position. -/
def findType? (model : Model) (qualifiedName : String) : Option (DeclId × Declaration) := do
  let id ← model.index[qualifiedName]?
  (model.get? id).map (id, ·)

/-- The members of a type with their positions, in order; none for other declarations. -/
def members (model : Model) (id : DeclId) : List (DeclId × Declaration) :=
  match (model.get? id).bind Declaration.type? with
  | some info => info.members.filterMap fun member => (model.get? member).map (member, ·)
  | none => []

end Model

end ApiDescription
