import ApiDescription.Proofs.Model.Lookup
import ApiDescription.Proofs.Selections

/-!
# Taking a member out of a type

A type may lose one of its members: its list of members goes on without that position, wherever it stood
in it. The declaration stays where it is, and so do all others, so the declarations of a model stay in
order.

Results:
* `Consistent.dropMember`: the declarations are as consistent as before.
* `Model.get?_dropMember`: what stands at a position afterwards.
* `Model.filterMap_members_dropMember`: what a selection makes of the members of the type afterwards.
* `Model.filterMap_filter_ne_eq_iff`: it is the same as before iff the selection makes nothing of the
  member.
-/

namespace ApiDescription

/-! ## Declarations -/

/-- The kind without one of the members of a type; nothing happens to other kinds. -/
def Declaration.Kind.dropMember (member : DeclId) : Kind → Kind
  | .type info => .type { info with members := info.members.filter (· ≠ member) }
  | kind => kind

/-- The declaration without one of its members. -/
def Declaration.dropMember (member : DeclId) (d : Declaration) : Declaration :=
  { d with kind := d.kind.dropMember member }

namespace Declaration

variable {decls decls' : List Declaration} {d : Declaration} {member : DeclId}

theorem kind_dropMember {info : TypeInfo} (hk : d.kind = .type info) (member : DeclId) :
    (d.dropMember member).kind =
      .type { info with members := info.members.filter (· ≠ member) } := by
  rw [dropMember, hk]
  rfl

theorem typeName?_dropMember : (d.dropMember member).typeName? = d.typeName? := by
  unfold dropMember typeName? type?
  cases d.kind <;> rfl

theorem isParameter_dropMember : (d.dropMember member).isParameter = d.isParameter := by
  unfold dropMember isParameter
  cases d.kind <;> rfl

theorem isEnumConstant_dropMember : (d.dropMember member).isEnumConstant = d.isEnumConstant := by
  unfold dropMember isEnumConstant
  cases d.kind <;> rfl

/-- References are in order among as many declarations with the same parameters. -/
theorem WellLinked.of_parameters (hlength : decls'.length = decls.length)
    (hparameters : ∀ (id : DeclId) (p : Declaration), decls[id]? = some p → p.isParameter = true →
      ∃ p', decls'[id]? = some p' ∧ p'.isParameter = true)
    (h : d.WellLinked decls) : d.WellLinked decls' := by
  unfold WellLinked at h ⊢
  split at h
  · exact fun id hid => hlength ▸ h id hid
  · intro id hid
    obtain ⟨p, hget, hp⟩ := h id hid
    exact hparameters id p hget hp
  · exact fun id hid => hlength ▸ h id hid
  · trivial
  · trivial

theorem WellLinked.dropMember (member : DeclId) (h : d.WellLinked decls) :
    (d.dropMember member).WellLinked decls := by
  unfold WellLinked Declaration.dropMember at *
  cases hk : d.kind with
  | type info =>
    rw [hk] at h
    exact fun id hid => h id (List.mem_filter.mp hid).1
  | method _ | property _ _ | field _ | parameter => rwa [hk] at h

end Declaration

theorem getElem?_dropMember (decls : List Declaration) (id member i : DeclId) :
    (decls.modify id (Declaration.dropMember member))[i]? =
      decls[i]?.map fun d => if id = i then d.dropMember member else d :=
  List.getElem?_modify ..

/-- Declarations of a model stay in order where a type loses a member. -/
theorem Consistent.dropMember {decls : List Declaration} (h : Consistent decls) (id member : DeclId) :
    Consistent (decls.modify id (Declaration.dropMember member)) where
  linked := by
    intro d hd
    obtain ⟨i, hi⟩ := List.mem_iff_getElem?.mp hd
    rw [getElem?_dropMember] at hi
    obtain ⟨d, hget, rfl⟩ := Option.map_eq_some_iff.mp hi
    have hlinked : d.WellLinked decls := h.linked d (List.mem_of_getElem? hget)
    have hdropped : (if id = i then d.dropMember member else d).WellLinked decls := by
      split
      · exact hlinked.dropMember member
      · exact hlinked
    refine hdropped.of_parameters (List.length_modify ..) fun j p hj hp => ?_
    rw [getElem?_dropMember, hj]
    refine ⟨_, rfl, ?_⟩
    rwa [apply_ite Declaration.isParameter, Declaration.isParameter_dropMember, ite_self]
  nodup := by
    refine nodup_typeNames_iff.mpr fun i j a a' name hi hj hn hn' => ?_
    rw [getElem?_dropMember] at hi hj
    obtain ⟨b, hb, rfl⟩ := Option.map_eq_some_iff.mp hi
    obtain ⟨b', hb', rfl⟩ := Option.map_eq_some_iff.mp hj
    rw [apply_ite Declaration.typeName?, Declaration.typeName?_dropMember, ite_self] at hn hn'
    exact nodup_typeNames_iff.mp h.nodup i j b b' name hb hb' hn hn'

/-! ## Models -/

namespace Model

variable {model : Model} {id member : DeclId} {d : Declaration} {info : TypeInfo}

/-- The model in which the type at a position does not have a member. -/
def dropMember (model : Model) (id member : DeclId) : Model where
  decls := model.decls.modify id (Declaration.dropMember member)
  consistent := model.consistent.dropMember id member

theorem get?_dropMember (model : Model) (id member i : DeclId) :
    (model.dropMember id member).get? i =
      (model.get? i).map fun d => if id = i then d.dropMember member else d :=
  getElem?_dropMember ..

theorem get?_dropMember_of_get? (h : model.get? id = some d) (member : DeclId) :
    (model.dropMember id member).get? id = some (d.dropMember member) := by
  rw [get?_dropMember, h, Option.map_some, if_pos rfl]

/-- A selection from the members of the type passes over the one that is gone. -/
theorem filterMap_members_dropMember {α : Type} {f : DeclId → Declaration → Option α}
    (hf : ∀ i a, f i (a.dropMember member) = f i a) (h : model.get? id = some d)
    (hk : d.kind = .type info) :
    ((model.dropMember id member).members id).filterMap (fun e => f e.1 e.2) =
      (info.members.filter (· ≠ member)).filterMap fun i => (model.get? i).bind (f i) := by
  rw [filterMap_members f (get?_dropMember_of_get? h member) (Declaration.kind_dropMember hk member)]
  refine List.filterMap_congr fun i _ => ?_
  rw [get?_dropMember, Option.bind_map]
  refine congrArg (Option.bind _) (funext fun a => ?_)
  rw [Function.comp_apply, apply_ite (f i), hf, ite_self]

/-- A selection from what stands at some positions makes the same without one of them iff it makes
nothing of what stands there. -/
theorem filterMap_filter_ne_eq_iff {α : Type} {f : DeclId → Declaration → Option α}
    {ids : List DeclId} {m : Declaration} (hmem : member ∈ ids) (hm : model.get? member = some m) :
    (ids.filter (· ≠ member)).filterMap (fun i => (model.get? i).bind (f i)) =
        ids.filterMap (fun i => (model.get? i).bind (f i)) ↔
      f member m = none := by
  rw [filterMap_filter_eq_iff]
  constructor
  · intro hnone
    simpa [hm] using hnone member hmem (by simp)
  · intro hnone i _ hi
    obtain rfl : i = member := by simpa using hi
    rw [hm, Option.bind_some, hnone]

end Model

end ApiDescription
