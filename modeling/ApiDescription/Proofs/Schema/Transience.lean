import ApiDescription.Proofs.Model.Removal
import ApiDescription.Proofs.Schema.Members
import ApiDescription.Proofs.Schema.Properties

/-!
# Transient members

The transient tag keeps a member out of a schema. To be kept out is to make no difference: the data type
of the type is the one that it would have without the member. This holds of the accessors of a type, but
an enumeration lists its constants whether they are transient or not.

Results:
* `accessorsAt_dropMember`: a type has the same accessors without a member that is none.
* `enumeration_dropMember_eq_iff`: when an enumeration has the same constants without a member.
* `ofModel_dropMember`: when a transient member makes no difference; `transientConstant_listed` is one
  that does.
-/

namespace ApiDescription

variable {filter : AccessorFilter} {binding : BindingTags} {model : Model} {id member : DeclId}
  {d m : Declaration} {info : TypeInfo}

/-! ## Accessors -/

namespace AccessorFilter

theorem accepts_model_dropMember (filter : AccessorFilter) (model : Model) (id member : DeclId)
    (d : Declaration) :
    filter.accepts (model.dropMember id member) d = filter.accepts model d := by
  have hpublic : ∀ reference : Option DeclId,
      (reference.bind (model.dropMember id member).get?).any (·.isPublic) =
        (reference.bind model.get?).any (·.isPublic) := by
    intro reference
    cases reference with
    | none => rfl
    | some i =>
      rw [Option.bind_some, Option.bind_some, Model.get?_dropMember, Option.any_map]
      refine congrArg (Option.any · _) (funext fun a => ?_)
      exact (apply_ite Declaration.isPublic ..).trans (ite_self _)
  unfold accepts acceptsByPolicy
  simp only [hasPublicAccessors_eq, hpublic]

theorem accepts_dropMember (filter : AccessorFilter) (model : Model) (d : Declaration)
    (member : DeclId) : filter.accepts model (d.dropMember member) = filter.accepts model d := by
  have hpolicy : filter.acceptsByPolicy model (d.dropMember member) =
      filter.acceptsByPolicy model d := by
    unfold acceptsByPolicy Declaration.dropMember
    cases d.kind <;> rfl
  unfold accepts
  rw [hpolicy]
  rfl

end AccessorFilter

namespace DataType

theorem accessor?_dropMember (i : DeclId) (a : Declaration) :
    accessor? filter model i (a.dropMember member) = accessor? filter model i a := by
  have hkind : accessorKind? (a.dropMember member) = accessorKind? a := by
    unfold accessorKind? Declaration.dropMember
    cases a.kind <;> rfl
  unfold accessor?
  rw [filter.accepts_dropMember, hkind]
  rfl

theorem accessor?_eq_none_of_transient (ht : filter.isTransient d = true) (i : DeclId) :
    accessor? filter model i d = none := by
  unfold accessor? AccessorFilter.accepts
  simp [ht]

/-- A type has the same accessors without a member that is none. -/
theorem accessorsAt_dropMember (h : model.get? id = some d) (hk : d.kind = .type info)
    (hmem : member ∈ info.members) (hm : model.get? member = some m)
    (hnone : accessor? filter model member m = none) :
    accessorsAt filter (model.dropMember id member) id = accessorsAt filter model id := by
  have hfilter : accessor? filter (model.dropMember id member) = accessor? filter model := by
    funext i a
    unfold accessor?
    rw [filter.accepts_model_dropMember]
  unfold accessorsAt
  rw [hfilter, Model.filterMap_members_dropMember accessor?_dropMember h hk,
    Model.filterMap_members _ h hk]
  exact (Model.filterMap_filter_ne_eq_iff hmem hm).mpr hnone

/-- What is no accessor is behind none. -/
theorem declaration_ne_of_mem_accessorsAt {a : Accessor} (hm : model.get? member = some m)
    (hnone : accessor? filter model member m = none) (ha : a ∈ accessorsAt filter model id) :
    a.declaration ≠ member := by
  rintro rfl
  obtain ⟨⟨i, e⟩, hmem, ha⟩ := List.mem_filterMap.mp ha
  obtain ⟨-, _, -, rfl⟩ := accessor?_eq_some_iff.mp ha
  obtain rfl := Option.some.inj (hm.symm.trans (Model.get?_of_mem_members hmem))
  exact absurd (hnone.symm.trans ha) (by simp)

/-! ## Constants -/

/-- The names of the constants of one sort at some positions. -/
def constantNames (binding : BindingTags) (keep : Declaration → Bool) (model : Model)
    (ids : List DeclId) : List String :=
  ids.filterMap fun i => (model.get? i).bind (constantName? binding keep)

/-- The name of the last constant at some positions that stands for unrecognized values. -/
def unknownName? (binding : BindingTags) (model : Model) (ids : List DeclId) : Option String :=
  (constantNames binding (isUnknownValue binding) model ids).getLast?

theorem constantName?_eq_none_iff {keep : Declaration → Bool} :
    constantName? binding keep d = none ↔ keep d = false := by
  rw [constantName?, Option.map_eq_none_iff, Option.guard_eq_none_iff]

theorem constantName?_dropMember {keep : Declaration → Bool}
    (hkeep : ∀ a, keep (a.dropMember member) = keep a) (a : Declaration) :
    constantName? binding keep (a.dropMember member) = constantName? binding keep a := by
  unfold constantName? Option.guard
  rw [hkeep]
  cases keep a <;> rfl

theorem isValue_dropMember (binding : BindingTags) (a : Declaration) :
    isValue binding (a.dropMember member) = isValue binding a := by
  unfold isValue
  rw [Declaration.isEnumConstant_dropMember]
  rfl

theorem isUnknownValue_dropMember (binding : BindingTags) (a : Declaration) :
    isUnknownValue binding (a.dropMember member) = isUnknownValue binding a := by
  unfold isUnknownValue
  rw [Declaration.isEnumConstant_dropMember]
  rfl

/-- The constants of a type by their positions. -/
theorem enumeration_members (h : model.get? id = some d) (hk : d.kind = .type info) :
    enumeration binding ((model.members id).map (·.2)) =
      .enumeration (constantNames binding (isValue binding) model info.members)
        (unknownName? binding model info.members) := by
  rw [enumeration_eq, map_schemaName_filter, map_schemaName_filter,
    Model.filterMap_members (fun _ => constantName? binding (isValue binding)) h hk,
    Model.filterMap_members (fun _ => constantName? binding (isUnknownValue binding)) h hk]
  rfl

/-- The constants of a type without one of its members. -/
theorem enumeration_members_dropMember (h : model.get? id = some d) (hk : d.kind = .type info) :
    enumeration binding (((model.dropMember id member).members id).map (·.2)) =
      .enumeration (constantNames binding (isValue binding) model (info.members.filter (· ≠ member)))
        (unknownName? binding model (info.members.filter (· ≠ member))) := by
  rw [enumeration_eq, map_schemaName_filter, map_schemaName_filter,
    Model.filterMap_members_dropMember
      (fun _ => constantName?_dropMember (isValue_dropMember binding)) h hk,
    Model.filterMap_members_dropMember
      (fun _ => constantName?_dropMember (isUnknownValue_dropMember binding)) h hk]
  rfl

/-- Positions have the same constants without one of them iff no constant stands there. -/
theorem constantNames_filter_eq_iff {keep : Declaration → Bool} {ids : List DeclId}
    (hmem : member ∈ ids) (hm : model.get? member = some m) :
    constantNames binding keep model (ids.filter (· ≠ member)) = constantNames binding keep model ids ↔
      keep m = false := by
  exact (Model.filterMap_filter_ne_eq_iff hmem hm).trans constantName?_eq_none_iff

/-- An enumeration has the same constants without a member iff the member is no constant, or is one for
unrecognized values that does not decide the name of these. -/
theorem enumeration_dropMember_eq_iff (h : model.get? id = some d) (hk : d.kind = .type info)
    (hmem : member ∈ info.members) (hm : model.get? member = some m) :
    enumeration binding (((model.dropMember id member).members id).map (·.2)) =
        enumeration binding ((model.members id).map (·.2)) ↔
      (m.isEnumConstant = true → m.tags.contains binding.unknownEnumValue = true ∧
        unknownName? binding model (info.members.filter (· ≠ member)) =
          unknownName? binding model info.members) := by
  rw [enumeration_members_dropMember h hk, enumeration_members h hk, Shape.enumeration.injEq,
    constantNames_filter_eq_iff hmem hm, isValue]
  cases hconstant : m.isEnumConstant with
  | true => simp
  | false =>
    -- what is no constant is missing in neither list of names
    have hsame : unknownName? binding model (info.members.filter (· ≠ member)) =
        unknownName? binding model info.members :=
      congrArg List.getLast? ((constantNames_filter_eq_iff hmem hm).mpr
        (by rw [isUnknownValue, hconstant, Bool.false_and]))
    exact ⟨fun _ => nofun, fun _ => ⟨Bool.false_and _, hsame⟩⟩

/-! ## Transient members -/

/-- **When a transient member makes no difference.** A type has a data type, also without one of its
members. If the member is transient no accessor shows it, and unless the type is an enumeration both data
types are the same. Those of an enumeration are the same iff the member is no constant, or is one for
unrecognized values that does not decide the name of these. -/
theorem ofModel_dropMember (h : model.get? id = some d) (hk : d.kind = .type info)
    (hmem : member ∈ info.members) (hm : model.get? member = some m)
    (ht : filter.isTransient m = true) :
    ∃ t t', ofModel filter model id = .ok t ∧
      ofModel filter (model.dropMember id member) id = .ok t' ∧
      (∀ accessors, t.shape = .complex accessors → ∀ a ∈ accessors, a.declaration ≠ member) ∧
      (t' = t ↔ (info.category = .enumType → m.isEnumConstant = true →
        m.tags.contains filter.binding.unknownEnumValue = true ∧
          unknownName? filter.binding model (info.members.filter (· ≠ member)) =
            unknownName? filter.binding model info.members)) := by
  have hnone : accessor? filter model member m = none := accessor?_eq_none_of_transient ht member
  refine ⟨_, _, ofModel_of_kind h hk, ofModel_of_kind (Model.get?_dropMember_of_get? h member)
    (Declaration.kind_dropMember hk member), fun accessors hshape a ha => ?_, ?_⟩
  · obtain ⟨_, _, _, _, _, haccessors⟩ := exists_kind_of_ofModel (ofModel_of_kind h hk)
    rw [haccessors accessors hshape] at ha
    exact declaration_ne_of_mem_accessorsAt hm hnone ha
  · rw [DataType.mk.injEq]
    by_cases hcategory : info.category = .enumType
    · simp only [hcategory, if_true, true_and, true_imp_iff]
      exact enumeration_dropMember_eq_iff h hk hmem hm
    · simp [hcategory, accessorsAt_dropMember h hk hmem hm hnone]

/-- The declarations of a type with two members, of which the second is transient. -/
def colorDeclarations (category : Category) (member : String → TypeRef → Declaration) :
    List Declaration :=
  let type := TypeRef.named "shop.Color"
  [(Declaration.ofType "shop.Color").mapType ({ · with category, members := [1, 2] }),
    member "RED" type,
    (member "BLACK" type).withTag "javax.xml.bind.annotation.XmlTransient" ∅]

/-- A class with a transient field. -/
def transientField : Model where
  decls := colorDeclarations .classType .ofField
  consistent := fault?_eq_none_iff.mp (by decide +kernel)

/-- An enumeration with a transient constant. -/
def transientConstant : Model where
  decls := colorDeclarations .enumType .ofEnumConstant
  consistent := fault?_eq_none_iff.mp (by decide +kernel)

/-- A transient field makes no difference to its class. -/
theorem transientField_excluded : 2 ∈ [1, 2] ∧
    (transientField.get? 2).any (AccessorFilter.isTransient ⟨.field, {}⟩) = true ∧
    ofModel ⟨.field, {}⟩ (transientField.dropMember 0 2) 0 = ofModel ⟨.field, {}⟩ transientField 0 := by
  obtain ⟨t, t', ht, ht', -, hiff⟩ := @ofModel_dropMember ⟨.field, {}⟩ transientField 0 2 _ _ _ rfl rfl
    (by decide) rfl (by decide +kernel)
  refine ⟨by decide, by decide +kernel, ?_⟩
  rw [ht, ht', hiff.mpr nofun]

/-- A transient constant is a value of its enumeration. -/
theorem transientConstant_listed :
    (transientConstant.get? 2).any (AccessorFilter.isTransient ⟨.field, {}⟩) = true ∧
    ofModel ⟨.field, {}⟩ transientConstant 0 =
      .ok ⟨0, "shop.Color", .enumeration ["RED", "BLACK"] none⟩ ∧
    ofModel ⟨.field, {}⟩ (transientConstant.dropMember 0 2) 0 ≠
      ofModel ⟨.field, {}⟩ transientConstant 0 := by
  have hlisted : ofModel ⟨.field, {}⟩ transientConstant 0 =
      .ok ⟨0, "shop.Color", .enumeration ["RED", "BLACK"] none⟩ := rfl
  have hdropped : ofModel ⟨.field, {}⟩ (transientConstant.dropMember 0 2) 0 =
      .ok ⟨0, "shop.Color", .enumeration ["RED"] none⟩ := rfl
  refine ⟨by decide +kernel, hlisted, ?_⟩
  rw [hlisted, hdropped]
  simp

end DataType

end ApiDescription
