import ApiDescription.Model.Builder
import ApiDescription.Proofs.Model.Validation
import Mathlib.Data.List.Induction
import Mathlib.Data.Nat.Find

/-!
# What a builder makes of its calls

A fresh builder is called again and again with declarations that refer to nothing of their own, and in the
end it is finished. A call behind `n` others is answered with the position `n`, and puts its declaration
there for good. What later calls may change is the members of a type or the parameters of a method, and
these are the answers to the calls that name it as the owner. All references lead backwards or to what
such a call has added, so two types of one name are all that can go wrong.

Results:
* `answers_eq_range`: the answers are the positions in order.
* `getElem?_after`: what one call does to the declarations (a step).
* `getElem?_decls_ofCalls`: what stands at a position behind all calls (a run).
* `wellLinked_of_getElem?`: every reference is in order.
* `finish_ofCalls`: the model that the calls make, or what goes wrong.
-/

namespace ApiDescription

/-! ## Links of declarations -/

namespace Declaration

/-- The declaration with these members, if it is a type, or these parameters, if it is a method. -/
def withLinks (d : Declaration) (members parameters : List DeclId) : Declaration :=
  match d.kind with
  | .type info => { d with kind := .type { info with members } }
  | .method _ => { d with kind := .method parameters }
  | _ => d

/-- The members of a type or the parameters of a method. -/
def links (d : Declaration) : List DeclId :=
  match d.kind with
  | .type info => info.members
  | .method parameters => parameters
  | _ => []

/-- The declaration with further members, if it is a type, or parameters, if it is a method. -/
def link (d : Declaration) (members parameters : List DeclId) : Declaration :=
  (d.mapType fun info => { info with members := info.members ++ members }).mapParameters
    (· ++ parameters)

variable {d : Declaration} {ms ps : List DeclId}

theorem link_nil (d : Declaration) : d.link [] [] = d := by
  obtain ⟨_, _, _, _, _, _, kind⟩ := d
  cases kind <;> simp [link, mapType, mapParameters]

theorem link_members (d : Declaration) (id : DeclId) :
    d.link [id] [] = d.mapType fun info => { info with members := info.members ++ [id] } := by
  obtain ⟨_, _, _, _, _, _, kind⟩ := d
  cases kind <;> simp [link, mapType, mapParameters]

theorem link_parameters (d : Declaration) (id : DeclId) :
    d.link [] [id] = d.mapParameters (· ++ [id]) := by
  obtain ⟨_, _, _, _, _, _, kind⟩ := d
  cases kind <;> simp [link, mapType, mapParameters]

theorem link_withLinks (d : Declaration) (ms ps ms' ps' : List DeclId) :
    (d.withLinks ms ps).link ms' ps' = d.withLinks (ms ++ ms') (ps ++ ps') := by
  obtain ⟨_, _, _, _, _, _, kind⟩ := d
  cases kind <;> rfl

theorem withLinks_of_links_eq_nil (h : d.links = []) : d.withLinks [] [] = d := by
  obtain ⟨_, _, _, _, _, _, kind⟩ := d
  cases kind with
  | type info =>
    obtain ⟨_, _, _, _, _, _⟩ := info
    obtain rfl := h
    rfl
  | method parameters =>
    obtain rfl := h
    rfl
  | field _ | property _ _ | parameter => rfl

theorem typeName?_withLinks : (d.withLinks ms ps).typeName? = d.typeName? := by
  obtain ⟨_, _, _, _, _, _, kind⟩ := d
  cases kind <;> rfl

theorem isParameter_withLinks : (d.withLinks ms ps).isParameter = d.isParameter := by
  obtain ⟨_, _, _, _, _, _, kind⟩ := d
  cases kind <;> rfl

theorem mem_links_withLinks {id : DeclId} : id ∈ (d.withLinks ms ps).links ↔
    (∃ info, d.kind = .type info) ∧ id ∈ ms ∨ (∃ ids, d.kind = .method ids) ∧ id ∈ ps := by
  obtain ⟨_, _, _, _, _, _, kind⟩ := d
  cases kind <;> simp [withLinks, links]

end Declaration

/-! ## Calls -/

/-- A call of a builder. -/
inductive BuilderCall where
  | add (d : Declaration)
  | addMember (owner : DeclId) (d : Declaration)
  | addParameter (method : DeclId) (d : Declaration)

namespace BuilderCall

/-- The declaration that a call passes. -/
def declaration : BuilderCall → Declaration
  | .add d | .addMember _ d | .addParameter _ d => d

/-- The owner to whose members a call adds. -/
def memberOf? : BuilderCall → Option DeclId
  | .addMember owner _ => some owner
  | _ => none

/-- The owner to whose parameters a call adds. -/
def parameterOf? : BuilderCall → Option DeclId
  | .addParameter method _ => some method
  | _ => none

/-- The owner that a call names. -/
def owner? (call : BuilderCall) : Option DeclId :=
  call.memberOf?.or call.parameterOf?

/-- An owner is of the kind that a call adds to. -/
def Fits (call : BuilderCall) (owner : Declaration) : Prop :=
  match call with
  | .add _ => False
  | .addMember .. => ∃ info, owner.kind = .type info
  | .addParameter .. => ∃ ids, owner.kind = .method ids

/-- A call is in order behind calls with these answers: its declaration has no links of its own, and no
accessor methods but those that were added before; only a parameter is added as a parameter; and the owner
was added before. -/
structure Admissible (answered : List DeclId) (call : BuilderCall) : Prop where
  unlinked : call.declaration.links = []
  accessors : ∀ getter setter, call.declaration.kind = .property getter setter →
    ∀ id ∈ getter.toList ++ setter.toList, id ∈ answered
  parameter : call.parameterOf?.isSome → call.declaration.kind = .parameter
  owner : ∀ id, call.owner? = some id → id ∈ answered

variable {call : BuilderCall} {id : DeclId} {owner : Declaration}

/-- A call links its declaration to the owner that it names, if the owner is of the right kind. -/
theorem links_iff : (∃ info, owner.kind = .type info) ∧ call.memberOf? = some id ∨
    (∃ ids, owner.kind = .method ids) ∧ call.parameterOf? = some id ↔
      call.owner? = some id ∧ call.Fits owner := by
  cases call <;> simp [memberOf?, parameterOf?, owner?, Fits, and_comm]

end BuilderCall

namespace ModelBuilder

/-- The builder behind a call. -/
def after (b : ModelBuilder) : BuilderCall → ModelBuilder
  | .add d => b.add d
  | .addMember owner d => b.addMember owner d
  | .addParameter method d => b.addParameter method d

/-- The builder behind a list of calls to a fresh one. -/
def ofCalls (calls : List BuilderCall) : ModelBuilder :=
  calls.foldl after ∅

/-- What calls are answered with: each with the position that its declaration gets. -/
def answersFrom (b : ModelBuilder) : List BuilderCall → List DeclId
  | [] => []
  | call :: calls => b.nextId :: answersFrom (b.after call) calls

/-- What calls to a fresh builder are answered with. -/
def answers (calls : List BuilderCall) : List DeclId :=
  answersFrom ∅ calls

/-- The answers to those calls that satisfy a condition. -/
def answersTo (calls : List BuilderCall) (p : BuilderCall → Bool) : List DeclId :=
  (((answers calls).zip calls).filter fun e => p e.2).map (·.1)

/-- All calls to a fresh builder are in order. -/
def Admissible (calls : List BuilderCall) : Prop :=
  ∀ before call behind, calls = before ++ call :: behind → call.Admissible (answers before)

variable {b : ModelBuilder} {call : BuilderCall} {calls : List BuilderCall} {i j : DeclId}
  {d : Declaration} {p : BuilderCall → Bool}

/-! ## Answers -/

theorem nextId_after (b : ModelBuilder) (call : BuilderCall) : (b.after call).nextId = b.nextId + 1 := by
  cases call <;> simp [after, addMember, addParameter, add, change, nextId]

theorem answersFrom_eq_range' (b : ModelBuilder) (calls : List BuilderCall) :
    b.answersFrom calls = List.range' b.nextId calls.length := by
  induction calls generalizing b with
  | nil => rfl
  | cons call calls ih => rw [answersFrom, ih, nextId_after, List.length_cons, List.range'_succ]

/-- Calls are answered with the positions in order. -/
theorem answers_eq_range (calls : List BuilderCall) : answers calls = List.range calls.length := by
  rw [answers, answersFrom_eq_range', List.range_eq_range']
  rfl

theorem mem_answersTo_iff : j ∈ answersTo calls p ↔ ∃ call, calls[j]? = some call ∧ p call = true := by
  have hzip : ∀ e, e ∈ (List.range calls.length).zip calls ↔ calls[e.1]? = some e.2 := by
    rintro ⟨k, call⟩
    simp only [List.mem_iff_getElem?, List.getElem?_zip_eq_some]
    constructor
    · rintro ⟨m, hm, hcall⟩
      obtain ⟨-, rfl⟩ := List.getElem?_eq_some_iff.mp hm
      rwa [List.getElem_range]
    · intro hcall
      exact ⟨k, List.getElem?_range (List.getElem?_eq_some_iff.mp hcall).1, hcall⟩
  rw [answersTo, answers_eq_range]
  simp only [List.mem_map, List.mem_filter, hzip, Prod.exists, exists_and_right, exists_eq_right]

theorem lt_of_mem_answersTo (h : j ∈ answersTo calls p) : j < calls.length := by
  obtain ⟨call, hcall, -⟩ := mem_answersTo_iff.mp h
  exact (List.getElem?_eq_some_iff.mp hcall).1

/-- A further call is answered behind the others. -/
theorem answersTo_append_singleton (calls : List BuilderCall) (call : BuilderCall)
    (p : BuilderCall → Bool) : answersTo (calls ++ [call]) p =
      answersTo calls p ++ if p call then [calls.length] else [] := by
  have hlength : (List.range calls.length).length = calls.length := List.length_range
  simp only [answersTo, answers_eq_range, List.length_append, List.length_singleton, List.range_succ,
    List.zip_append hlength, List.filter_append, List.map_append]
  by_cases hp : p call = true <;> simp [hp]

/-! ## Declarations -/

/-- What one call does: its declaration comes behind the others, and its owner gets the link. -/
theorem getElem?_after (b : ModelBuilder) (call : BuilderCall) (i : DeclId) :
    (b.after call).decls[i]? = (b.decls ++ [call.declaration])[i]?.map fun d =>
      d.link (if call.memberOf? = some i then [b.nextId] else [])
        (if call.parameterOf? = some i then [b.nextId] else []) := by
  cases call with
  | add d =>
    simp only [after, add, BuilderCall.memberOf?, BuilderCall.parameterOf?, BuilderCall.declaration,
      reduceCtorEq, if_false, Declaration.link_nil, Option.map_id']
  | addMember owner d =>
    simp only [after, addMember, add, change, BuilderCall.memberOf?, BuilderCall.parameterOf?,
      BuilderCall.declaration, reduceCtorEq, if_false, List.getElem?_modify, Option.some.injEq]
    refine congrArg (Option.map · _) (funext fun a => ?_)
    by_cases ho : owner = i
    · simp only [ho, if_true, Declaration.link_members]
    · simp only [ho, if_false, Declaration.link_nil]
  | addParameter method d =>
    simp only [after, addParameter, add, change, BuilderCall.memberOf?, BuilderCall.parameterOf?,
      BuilderCall.declaration, reduceCtorEq, if_false, List.getElem?_modify, Option.some.injEq]
    refine congrArg (Option.map · _) (funext fun a => ?_)
    by_cases ho : method = i
    · simp only [ho, if_true, Declaration.link_parameters]
    · simp only [ho, if_false, Declaration.link_nil]

theorem ofCalls_append_singleton (calls : List BuilderCall) (call : BuilderCall) :
    ofCalls (calls ++ [call]) = (ofCalls calls).after call := by
  rw [ofCalls, List.foldl_append]
  rfl

theorem nextId_ofCalls (calls : List BuilderCall) : (ofCalls calls).nextId = calls.length := by
  induction calls using List.reverseRecOn with
  | nil => rfl
  | append_singleton calls call ih =>
    rw [ofCalls_append_singleton, nextId_after, ih, List.length_append, List.length_singleton]

/-- The members that calls have given to a position. -/
def membersOf (calls : List BuilderCall) (i : DeclId) : List DeclId :=
  answersTo calls fun call => call.memberOf? = some i

/-- The parameters that calls have given to a position. -/
def parametersOf (calls : List BuilderCall) (i : DeclId) : List DeclId :=
  answersTo calls fun call => call.parameterOf? = some i

theorem mem_membersOf_iff :
    j ∈ membersOf calls i ↔ ∃ call, calls[j]? = some call ∧ call.memberOf? = some i := by
  simp only [membersOf, mem_answersTo_iff, decide_eq_true_eq]

theorem mem_parametersOf_iff :
    j ∈ parametersOf calls i ↔ ∃ call, calls[j]? = some call ∧ call.parameterOf? = some i := by
  simp only [parametersOf, mem_answersTo_iff, decide_eq_true_eq]

namespace Admissible

theorem init (h : Admissible (calls ++ [call])) : Admissible calls := by
  intro before call' behind hcalls
  exact h before call' (behind ++ [call]) (by rw [hcalls, List.append_assoc, List.cons_append])

/-- A call is in order behind those that were answered with smaller positions. -/
theorem of_getElem? (h : Admissible calls) (hj : calls[j]? = some call) :
    call.Admissible (List.range j) := by
  obtain ⟨hlt, rfl⟩ := List.getElem?_eq_some_iff.mp hj
  have hcall := h (calls.take j) calls[j] (calls.drop (j + 1)) (by simp)
  rwa [answers_eq_range, List.length_take, Nat.min_eq_left (Nat.le_of_lt hlt)] at hcall

/-- Calls are in order if each is behind those that were answered with smaller positions. -/
theorem of_forall_getElem? (h : ∀ (j : Nat) call, calls[j]? = some call → call.Admissible (List.range j)) :
    Admissible calls := by
  rintro before call behind rfl
  rw [answers_eq_range]
  exact h before.length call (by simp)

/-- An owner comes before what is added to it. -/
theorem lt_of_mem (h : Admissible calls) (hj : j ∈ membersOf calls i ∨ j ∈ parametersOf calls i) :
    i < j := by
  rw [mem_membersOf_iff, mem_parametersOf_iff] at hj
  obtain ⟨call, hcall, howner⟩ : ∃ call, calls[j]? = some call ∧ call.owner? = some i := by
    rcases hj with ⟨call, hcall, howner⟩ | ⟨call, hcall, howner⟩
    · exact ⟨call, hcall, by rw [BuilderCall.owner?, howner, Option.some_or]⟩
    · refine ⟨call, hcall, ?_⟩
      cases call <;> cases howner
      rfl
  exact List.mem_range.mp ((h.of_getElem? hcall).owner i howner)

/-- The last call has given nothing to its own position. -/
theorem links_last (h : Admissible (calls ++ [call])) :
    membersOf (calls ++ [call]) calls.length = [] ∧ parametersOf (calls ++ [call]) calls.length = [] := by
  have hlast : ∀ j, ¬ (j ∈ membersOf (calls ++ [call]) calls.length ∨
      j ∈ parametersOf (calls ++ [call]) calls.length) := by
    intro j hj
    have hgt := h.lt_of_mem hj
    have hlt : j < (calls ++ [call]).length := by
      rcases hj with hj | hj <;> exact lt_of_mem_answersTo hj
    rw [List.length_append, List.length_singleton] at hlt
    exact absurd hlt (Nat.not_lt.mpr hgt)
  exact ⟨List.eq_nil_iff_forall_not_mem.mpr fun j hj => hlast j (.inl hj),
    List.eq_nil_iff_forall_not_mem.mpr fun j hj => hlast j (.inr hj)⟩

end Admissible

/-- **What stands at a position behind all calls**: the declaration that was passed, linked to the answers to
the calls that name the position as their owner. -/
theorem getElem?_decls_ofCalls (h : Admissible calls) (i : DeclId) :
    (ofCalls calls).decls[i]? = calls[i]?.map fun call =>
      call.declaration.withLinks (membersOf calls i) (parametersOf calls i) := by
  induction calls using List.reverseRecOn with
  | nil => rfl
  | append_singleton calls call ih =>
    have hlength : (ofCalls calls).decls.length = calls.length := nextId_ofCalls calls
    rw [ofCalls_append_singleton, getElem?_after, nextId_ofCalls]
    have hmembers : membersOf (calls ++ [call]) i =
        membersOf calls i ++ if call.memberOf? = some i then [calls.length] else [] := by
      simp only [membersOf, answersTo_append_singleton, decide_eq_true_eq]
    have hparameters : parametersOf (calls ++ [call]) i =
        parametersOf calls i ++ if call.parameterOf? = some i then [calls.length] else [] := by
      simp only [parametersOf, answersTo_append_singleton, decide_eq_true_eq]
    rcases Nat.lt_trichotomy i calls.length with hlt | rfl | hgt
    · -- an earlier declaration stays, and may get one more link
      rw [List.getElem?_append_left (hlength ▸ hlt), ih h.init, List.getElem?_append_left hlt,
        Option.map_map, hmembers, hparameters]
      simp only [Function.comp_def, Declaration.link_withLinks]
    · -- the new declaration has no links yet
      obtain ⟨hm, hp⟩ := h.links_last
      have hunlinked : call.declaration.links = [] :=
        (h.of_getElem? List.getElem?_concat_length).unlinked
      rw [hm, eq_comm, List.append_eq_nil_iff] at hmembers
      rw [hp, eq_comm, List.append_eq_nil_iff] at hparameters
      rw [hm, hp, hmembers.2, hparameters.2, ← hlength, List.getElem?_concat_length, hlength,
        List.getElem?_concat_length]
      simp only [Option.map_some, Declaration.link_nil,
        Declaration.withLinks_of_links_eq_nil hunlinked]
    · rw [List.getElem?_eq_none_iff.mpr, List.getElem?_eq_none_iff.mpr, Option.map_none, Option.map_none]
      · rw [List.length_append, List.length_singleton]
        exact hgt
      · rw [List.length_append, List.length_singleton, hlength]
        exact hgt

/-! ## Validation -/

/-- A call passes a type of this name at a position. -/
def DeclaresType (calls : List BuilderCall) (i : DeclId) (name : String) : Prop :=
  ∃ call info, calls[i]? = some call ∧ call.declaration.kind = .type info ∧ info.qualifiedName = name

/-- A call passes a type at a position whose name an earlier one has. -/
def RepeatsType (calls : List BuilderCall) (j : DeclId) (name : String) : Prop :=
  DeclaresType calls j name ∧ ∃ i < j, DeclaresType calls i name

/-- Every reference behind calls that are in order is in order. -/
theorem wellLinked_of_getElem? (h : Admissible calls) (hd : (ofCalls calls).decls[i]? = some d) :
    d.WellLinked (ofCalls calls).decls := by
  have hlength : (ofCalls calls).decls.length = calls.length := nextId_ofCalls calls
  have hlt : i < calls.length := hlength ▸ (List.getElem?_eq_some_iff.mp hd).1
  rw [getElem?_decls_ofCalls h, Option.map_eq_some_iff] at hd
  obtain ⟨call, hcall, rfl⟩ := hd
  rw [Declaration.WellLinked, Declaration.withLinks]
  cases hk : call.declaration.kind with
  | type info =>
    intro id hid
    have hmem : id ∈ membersOf calls i := hid
    rw [hlength]
    exact lt_of_mem_answersTo hmem
  | method ids =>
    intro id hid
    obtain ⟨added, hadded, howner⟩ := mem_parametersOf_iff.mp hid
    have hparameter : added.declaration.kind = .parameter :=
      (h.of_getElem? hadded).parameter (by rw [howner]; rfl)
    refine ⟨_, by rw [getElem?_decls_ofCalls h, hadded, Option.map_some], ?_⟩
    rw [Declaration.isParameter_withLinks, Declaration.isParameter, hparameter]
    rfl
  | property getter setter =>
    simp only [hk]
    intro id hid
    rw [hlength]
    have hmem := (h.of_getElem? hcall).accessors getter setter hk id hid
    exact Nat.lt_trans (List.mem_range.mp hmem) hlt
  | field _ | parameter => simp only [hk]

theorem exists_typeName?_iff (h : Admissible calls) {name : String} :
    (∃ d, (ofCalls calls).decls[i]? = some d ∧ d.typeName? = some name) ↔ DeclaresType calls i name := by
  simp only [getElem?_decls_ofCalls h, Option.map_eq_some_iff, DeclaresType]
  constructor
  · rintro ⟨_, ⟨call, hcall, rfl⟩, hname⟩
    rw [Declaration.typeName?_withLinks, Declaration.typeName?_eq_some_iff] at hname
    obtain ⟨info, hk, hname⟩ := hname
    exact ⟨call, info, hcall, hk, hname⟩
  · rintro ⟨call, info, hcall, hk, hname⟩
    refine ⟨_, ⟨call, hcall, rfl⟩, ?_⟩
    rw [Declaration.typeName?_withLinks, Declaration.typeName?_eq_some_iff]
    exact ⟨info, hk, hname⟩

end ModelBuilder

/-- A declaration whose references are in order can be blamed for its name only. -/
theorem Declaration.fault_iff_of_wellLinked {decls : List Declaration} {position : Nat}
    {d : Declaration} {e : ModelError} (h : d.WellLinked decls) :
    d.Fault decls position e ↔ ∃ name, d.typeName? = some name ∧
      (∃ i < position, ∃ d', decls[i]? = some d' ∧ d'.typeName? = some name) ∧
      e = .duplicateType name := by
  constructor
  · intro hf
    rw [WellLinked] at h
    cases hf with
    | member hk hs hb hid =>
      rw [hk] at h
      exact absurd (h _ (by rw [hs]; simp)) (Nat.not_lt.mpr hid)
    | name hk hm hj hd hn =>
      exact ⟨_, typeName?_eq_some_iff.mpr ⟨_, hk, rfl⟩, ⟨_, hj, _, hd, hn⟩, rfl⟩
    | missingParameter hk hb hid =>
      rw [hk] at h
      obtain ⟨p, hp, -⟩ := h _ (List.mem_append_right _ List.mem_cons_self)
      exact absurd (List.getElem?_eq_some_iff.mp hp).1 (Nat.not_lt.mpr hid)
    | noParameter hk hb hp hn =>
      rw [hk] at h
      obtain ⟨p, hp', hparameter⟩ := h _ (List.mem_append_right _ List.mem_cons_self)
      rw [Option.some.inj (hp.symm.trans hp')] at hn
      rw [hn] at hparameter
      cases hparameter
    | accessor hk hs hb hid =>
      rw [hk] at h
      exact absurd (h _ (by rw [hs]; simp)) (Nat.not_lt.mpr hid)
  · rintro ⟨name, hname, ⟨i, hi, d', hd, hn⟩, rfl⟩
    obtain ⟨info, hk, rfl⟩ := typeName?_eq_some_iff.mp hname
    rw [WellLinked, hk] at h
    exact .name hk h hi hd hn

namespace ModelBuilder

variable {calls : List BuilderCall} {e : ModelError}

/-- Behind calls that are in order only a repeated name is a fault. -/
theorem exists_fault_iff (h : Admissible calls) {j : DeclId} :
    (∃ d, (ofCalls calls).decls[j]? = some d ∧ d.Fault (ofCalls calls).decls j e) ↔
      ∃ name, RepeatsType calls j name ∧ e = .duplicateType name := by
  constructor
  · rintro ⟨d, hd, hf⟩
    obtain ⟨name, hname, ⟨i, hi, hbefore⟩, rfl⟩ :=
      (Declaration.fault_iff_of_wellLinked (wellLinked_of_getElem? h hd)).mp hf
    exact ⟨name, ⟨(exists_typeName?_iff h).mp ⟨d, hd, hname⟩, i, hi, (exists_typeName?_iff h).mp hbefore⟩,
      rfl⟩
  · rintro ⟨name, ⟨hj, i, hi, hbefore⟩, rfl⟩
    obtain ⟨d, hd, hname⟩ := (exists_typeName?_iff h).mpr hj
    exact ⟨d, hd, (Declaration.fault_iff_of_wellLinked (wellLinked_of_getElem? h hd)).mpr
      ⟨name, hname, ⟨i, hi, (exists_typeName?_iff h).mpr hbefore⟩, rfl⟩⟩

/-- What goes wrong is the first name that is repeated. -/
theorem finish_eq_error_iff (h : Admissible calls) :
    (ofCalls calls).finish = .error e ↔ ∃ j name, e = .duplicateType name ∧
      RepeatsType calls j name ∧ ∀ k < j, ∀ other, ¬ RepeatsType calls k other := by
  rw [finish, Model.ofDeclarations_eq_error_iff, fault?_eq_some_iff, FirstFaultFrom]
  constructor
  · rintro ⟨j, d, -, hd, hf, hfirst⟩
    obtain ⟨name, hrepeats, rfl⟩ := (exists_fault_iff h).mp ⟨d, hd, hf⟩
    refine ⟨j, name, rfl, hrepeats, fun k hk other hother => ?_⟩
    obtain ⟨d', hd', hf'⟩ := (exists_fault_iff h).mpr ⟨other, hother, rfl⟩
    exact hfirst k d' (Nat.zero_le k) hk hd' _ hf'
  · rintro ⟨j, name, rfl, hrepeats, hfirst⟩
    obtain ⟨d, hd, hf⟩ := (exists_fault_iff h).mpr ⟨name, hrepeats, rfl⟩
    refine ⟨j, d, Nat.zero_le j, hd, hf, fun k d' _ hk hd' e' hf' => ?_⟩
    obtain ⟨other, hother, -⟩ := (exists_fault_iff h).mp ⟨d', hd', hf'⟩
    exact hfirst k hk other hother

/-- Something goes wrong iff a name is repeated. -/
theorem exists_error_iff (h : Admissible calls) :
    (∃ e, (ofCalls calls).finish = .error e) ↔ ∃ j name, RepeatsType calls j name := by
  constructor
  · rintro ⟨e, he⟩
    obtain ⟨j, name, -, hrepeats, -⟩ := (finish_eq_error_iff h).mp he
    exact ⟨j, name, hrepeats⟩
  · intro hrepeated
    classical
    obtain ⟨name, hname⟩ := Nat.find_spec hrepeated
    refine ⟨.duplicateType name, (finish_eq_error_iff h).mpr
      ⟨Nat.find hrepeated, name, rfl, hname, fun k hk other hother => ?_⟩⟩
    exact Nat.find_min hrepeated hk ⟨other, hother⟩

/-- A declaration is linked where its call names an owner of the right kind, and nowhere else. -/
theorem mem_links_iff (h : Admissible calls) {i j : DeclId} {d : Declaration}
    (hd : (ofCalls calls).decls[i]? = some d) :
    j ∈ d.links ↔ ∃ call owner, calls[j]? = some call ∧ calls[i]? = some owner ∧
      call.owner? = some i ∧ call.Fits owner.declaration := by
  rw [getElem?_decls_ofCalls h, Option.map_eq_some_iff] at hd
  obtain ⟨owner, howner, rfl⟩ := hd
  rw [Declaration.mem_links_withLinks, mem_membersOf_iff, mem_parametersOf_iff]
  constructor
  · rintro (⟨hkind, call, hcall, hi⟩ | ⟨hkind, call, hcall, hi⟩)
    · exact ⟨call, owner, hcall, howner, BuilderCall.links_iff.mp (.inl ⟨hkind, hi⟩)⟩
    · exact ⟨call, owner, hcall, howner, BuilderCall.links_iff.mp (.inr ⟨hkind, hi⟩)⟩
  · rintro ⟨call, owner', hcall, howner', hlinks⟩
    obtain rfl := Option.some.inj (howner.symm.trans howner')
    rcases BuilderCall.links_iff.mpr hlinks with ⟨hkind, hi⟩ | ⟨hkind, hi⟩
    · exact .inl ⟨hkind, call, hcall, hi⟩
    · exact .inr ⟨hkind, call, hcall, hi⟩

end ModelBuilder

open ModelBuilder in
/-- **What a builder makes of its calls.** Let all calls be in order. They are answered with the positions in
order. Finishing fails iff a type has the name of an earlier one, and reports the first name that is
repeated. Otherwise each declaration stands at its position as it was passed, but that the members of a type
and the parameters of a method are the answers to the calls that name it as their owner, in order. A call
that names an owner of another kind links its declaration nowhere. -/
theorem finish_ofCalls {calls : List BuilderCall} (h : ModelBuilder.Admissible calls) :
    answers calls = List.range calls.length ∧
    ((∃ e, (ofCalls calls).finish = .error e) ↔ ∃ j name, RepeatsType calls j name) ∧
    (∀ e, (ofCalls calls).finish = .error e ↔ ∃ j name, e = .duplicateType name ∧
      RepeatsType calls j name ∧ ∀ k < j, ∀ other, ¬ RepeatsType calls k other) ∧
    ∀ model, (ofCalls calls).finish = .ok model →
      model.size = calls.length ∧
      (∀ i call, calls[i]? = some call → model.get? i = some (call.declaration.withLinks
        (answersTo calls fun c => c.memberOf? = some i)
        (answersTo calls fun c => c.parameterOf? = some i))) ∧
      ∀ j call i owner, calls[j]? = some call → call.owner? = some i → calls[i]? = some owner →
        ¬ call.Fits owner.declaration → ∀ k d, model.get? k = some d → j ∉ d.links := by
  refine ⟨answers_eq_range calls, exists_error_iff h, fun _ => finish_eq_error_iff h, fun model hm => ?_⟩
  obtain ⟨-, hdecls⟩ := Model.ofDeclarations_eq_ok_iff.mp hm
  have hget : ∀ i, model.get? i = (ofCalls calls).decls[i]? := fun i => by rw [Model.get?, hdecls]
  refine ⟨?_, fun i call hcall => ?_, fun j call i owner hcall hi howner hmisfit k d hd hj => ?_⟩
  · rw [Model.size, hdecls]
    exact nextId_ofCalls calls
  · rw [hget, getElem?_decls_ofCalls h, hcall, Option.map_some]
    rfl
  · rw [hget] at hd
    obtain ⟨call', owner', hcall', howner', hk, hfits⟩ := (mem_links_iff h hd).mp hj
    obtain rfl := Option.some.inj (hcall.symm.trans hcall')
    obtain rfl := Option.some.inj (hi.symm.trans hk)
    obtain rfl := Option.some.inj (howner.symm.trans howner')
    exact hmisfit hfits

/-- An order with a method and its property, and a member of a field, which has no members. -/
def orderCalls : List BuilderCall :=
  [.add (.ofType "shop.Order"), .addMember 0 (.ofField "number" (.primitive "long")),
    .addMember 0 (.ofMethod "price" (.primitive "int")),
    .addParameter 2 (.ofParameter "currency" (.named "shop.Currency")),
    .addMember 1 (.ofField "stray" (.primitive "int")),
    .addMember 0 (.ofProperty "price" (.primitive "int") (some 2) none)]

theorem orderCalls_admissible : ModelBuilder.Admissible orderCalls := by
  refine ModelBuilder.Admissible.of_forall_getElem? fun j call hj => ?_
  rcases j with _ | _ | _ | _ | _ | _ | j <;> cases hj
  all_goals
    constructor <;>
    simp [BuilderCall.declaration, BuilderCall.parameterOf?, BuilderCall.owner?, BuilderCall.memberOf?,
      Declaration.links, Declaration.ofType, Declaration.ofField, Declaration.ofMethod,
      Declaration.ofParameter, Declaration.ofProperty]

/-- The order has its three members and the method its parameter; the stray field belongs to nothing. -/
theorem orderCalls_finish : ModelBuilder.Admissible orderCalls ∧
    ModelBuilder.answers orderCalls = [0, 1, 2, 3, 4, 5] ∧
    ∃ model, (ModelBuilder.ofCalls orderCalls).finish = .ok model ∧
      (model.get? 0).map Declaration.links = some [1, 2, 5] ∧
      (model.get? 2).map Declaration.links = some [3] ∧
      ∀ k d, model.get? k = some d → 4 ∉ d.links := by
  obtain ⟨hanswers, -, -, hmodel⟩ := finish_ofCalls orderCalls_admissible
  obtain ⟨model, hm⟩ : ∃ model, (ModelBuilder.ofCalls orderCalls).finish = .ok model :=
    Model.exists_ofDeclarations_iff.mpr (fault?_eq_none_iff.mp (by decide +kernel))
  obtain ⟨-, hget, hstray⟩ := hmodel model hm
  refine ⟨orderCalls_admissible, hanswers, model, hm, ?_, ?_, hstray 4 _ 1 _ rfl rfl rfl ?_⟩
  · rw [hget 0 _ rfl]
    rfl
  · rw [hget 2 _ rfl]
    rfl
  · rintro ⟨info, hk⟩
    cases hk

end ApiDescription
