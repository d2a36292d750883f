import ApiDescription.Proofs.Schema.DataTypes

/-!
# The algebra of access policies

Tags decide about a declaration before the policy does, and a policy has a say on fields and properties
alone. So the four policies are related: `tagged` brings in what both `property` and `field` bring in,
and `publicMember` what `property` brings in and the public part of what `field` brings in. The
accessors of a data type follow, since neither their names nor their order depend on the policy.

Results:
* `accepts_tagged_iff`, `accepts_publicMember_iff`: the relations between the policies, declaration by
  declaration.
* `accessorsAt_tagged_sublist`, `mem_accessorsAt_publicMember_iff`: the relations between the accessors
  of a type.
* `policy_algebra`: the relations between the policies, for declarations and for data types.
-/

namespace ApiDescription

variable {model : Model} {binding : BindingTags} {id : DeclId} {d : Declaration}

/-! ## Declarations -/

namespace AccessorFilter

theorem accepts_iff {filter : AccessorFilter} :
    filter.accepts model d = true ↔ filter.isTransient d = false ∧
      (filter.isExplicit d = true ∨ filter.acceptsByPolicy model d = true) := by
  unfold accepts
  cases filter.isTransient d with
  | true => simp
  | false => cases filter.isExplicit d <;> simp

/-- No policy brings in declarations both as a property and as a field. -/
theorem acceptsByPolicy_tagged :
    acceptsByPolicy ⟨.tagged, binding⟩ model d =
      (acceptsByPolicy ⟨.property, binding⟩ model d &&
        acceptsByPolicy ⟨.field, binding⟩ model d) := by
  unfold acceptsByPolicy
  split <;> simp

theorem acceptsByPolicy_publicMember :
    acceptsByPolicy ⟨.publicMember, binding⟩ model d =
      (acceptsByPolicy ⟨.property, binding⟩ model d ||
        (acceptsByPolicy ⟨.field, binding⟩ model d && d.isPublic)) := by
  unfold acceptsByPolicy
  split <;> simp

theorem accepts_tagged_iff :
    accepts ⟨.tagged, binding⟩ model d = true ↔
      accepts ⟨.property, binding⟩ model d = true ∧ accepts ⟨.field, binding⟩ model d = true := by
  simp only [accepts_iff, acceptsByPolicy_tagged, Bool.and_eq_true]
  exact (and_congr_right fun _ => or_and_left).trans and_and_left

theorem accepts_publicMember_iff :
    accepts ⟨.publicMember, binding⟩ model d = true ↔
      accepts ⟨.property, binding⟩ model d = true ∨
        accepts ⟨.field, binding⟩ model d = true ∧ d.isPublic = true := by
  simp only [accepts_iff, acceptsByPolicy_publicMember, Bool.or_eq_true, Bool.and_eq_true]
  constructor
  · rintro ⟨ht, he | hp | ⟨hf, hpublic⟩⟩
    · exact .inl ⟨ht, .inl he⟩
    · exact .inl ⟨ht, .inr hp⟩
    · exact .inr ⟨⟨ht, .inr hf⟩, hpublic⟩
  · rintro (⟨ht, he | hp⟩ | ⟨⟨ht, he | hf⟩, hpublic⟩)
    · exact ⟨ht, .inl he⟩
    · exact ⟨ht, .inr (.inl hp)⟩
    · exact ⟨ht, .inl he⟩
    · exact ⟨ht, .inr (.inr ⟨hf, hpublic⟩)⟩

/-- What is brought in without the help of a policy is brought in under every policy. -/
theorem accepts_of_tagged (h : accepts ⟨.tagged, binding⟩ model d = true) (policy : AccessPolicy) :
    accepts ⟨policy, binding⟩ model d = true := by
  obtain ⟨hproperty, hfield⟩ := accepts_tagged_iff.mp h
  cases policy with
  | tagged => exact h
  | property => exact hproperty
  | field => exact hfield
  | publicMember => exact accepts_publicMember_iff.mpr (.inl hproperty)

end AccessorFilter

/-! ## Data types -/

namespace DataType

/-- The policy has a say on whether a declaration is an accessor, and on nothing else about it. -/
theorem accessor?_of_accepts {policy policy' : AccessPolicy} {a : Accessor}
    (h : accessor? ⟨policy, binding⟩ model id d = some a)
    (ha : AccessorFilter.accepts ⟨policy', binding⟩ model d = true) :
    accessor? ⟨policy', binding⟩ model id d = some a := by
  obtain ⟨-, hkind⟩ := accessor?_eq_some_iff.mp h
  exact accessor?_eq_some_iff.mpr ⟨ha, hkind⟩

/-- Whether the member behind an accessor is public. -/
def isPublicAccessor (model : Model) (a : Accessor) : Bool :=
  (model.get? a.declaration).any (·.isPublic)

theorem isPublicAccessor_iff {policy : AccessPolicy} {a : Accessor} (h : model.get? id = some d)
    (ha : accessor? ⟨policy, binding⟩ model id d = some a) :
    isPublicAccessor model a = true ↔ d.isPublic = true := by
  obtain ⟨-, kind, -, rfl⟩ := accessor?_eq_some_iff.mp ha
  simp [isPublicAccessor, h]

variable {info : TypeInfo}

theorem accessorsAt_tagged_sublist (model : Model) (binding : BindingTags) (id : DeclId)
    (policy : AccessPolicy) :
    (accessorsAt ⟨.tagged, binding⟩ model id).Sublist (accessorsAt ⟨policy, binding⟩ model id) :=
  filterMap_sublist_filterMap fun _ _ _ ha =>
    accessor?_of_accepts ha
      (AccessorFilter.accepts_of_tagged (accessor?_eq_some_iff.mp ha).1 policy)

theorem accessorsAt_property_sublist (model : Model) (binding : BindingTags) (id : DeclId) :
    (accessorsAt ⟨.property, binding⟩ model id).Sublist
      (accessorsAt ⟨.publicMember, binding⟩ model id) :=
  filterMap_sublist_filterMap fun _ _ _ ha =>
    accessor?_of_accepts ha
      (AccessorFilter.accepts_publicMember_iff.mpr (.inl (accessor?_eq_some_iff.mp ha).1))

theorem filter_accessorsAt_field_sublist (h : model.get? id = some d) (hk : d.kind = .type info) :
    ((accessorsAt ⟨.field, binding⟩ model id).filter (isPublicAccessor model)).Sublist
      (accessorsAt ⟨.publicMember, binding⟩ model id) := by
  rw [accessorsAt, List.filter_filterMap]
  refine filterMap_sublist_filterMap fun e he a hf => ?_
  obtain ⟨ha, hpublic⟩ := Option.filter_eq_some_iff.mp hf
  have hget := (Model.members_eq h hk).2 e he
  refine accessor?_of_accepts ha (AccessorFilter.accepts_publicMember_iff.mpr (.inr ⟨?_, ?_⟩))
  · exact (accessor?_eq_some_iff.mp ha).1
  · exact (isPublicAccessor_iff hget ha).mp hpublic

theorem mem_accessorsAt_publicMember_iff (h : model.get? id = some d) (hk : d.kind = .type info)
    {a : Accessor} : a ∈ accessorsAt ⟨.publicMember, binding⟩ model id ↔
      a ∈ accessorsAt ⟨.property, binding⟩ model id ∨
        a ∈ accessorsAt ⟨.field, binding⟩ model id ∧ isPublicAccessor model a = true := by
  constructor
  · intro hm
    obtain ⟨e, he, ha⟩ := List.mem_filterMap.mp hm
    have hget := (Model.members_eq h hk).2 e he
    rcases AccessorFilter.accepts_publicMember_iff.mp (accessor?_eq_some_iff.mp ha).1 with
      hproperty | ⟨hfield, hpublic⟩
    · exact .inl (List.mem_filterMap.mpr ⟨e, he, accessor?_of_accepts ha hproperty⟩)
    · exact .inr ⟨List.mem_filterMap.mpr ⟨e, he, accessor?_of_accepts ha hfield⟩,
        (isPublicAccessor_iff hget ha).mpr hpublic⟩
  · rintro (hm | ⟨hm, hpublic⟩)
    · exact (accessorsAt_property_sublist model binding id).mem hm
    · exact (filter_accessorsAt_field_sublist h hk).mem (List.mem_filter.mpr ⟨hm, hpublic⟩)

end DataType

/-- **The relations between the policies.** A declaration is accepted under `tagged` iff it is under
both `property` and `field`, and under `publicMember` iff it is under `property`, or under `field` and
is public. So the data type of every type has the same accessors in the same order of members, but for
those that its policy leaves out: those under `tagged` are among those under any policy, and those
under `publicMember` are those under `property` and those under `field` whose member is public. The
data type of an enumeration does not depend on the policy. -/
theorem policy_algebra (model : Model) (binding : BindingTags) :
    (∀ d, AccessorFilter.accepts ⟨.tagged, binding⟩ model d = true ↔
      AccessorFilter.accepts ⟨.property, binding⟩ model d = true ∧
        AccessorFilter.accepts ⟨.field, binding⟩ model d = true) ∧
    (∀ d, AccessorFilter.accepts ⟨.publicMember, binding⟩ model d = true ↔
      AccessorFilter.accepts ⟨.property, binding⟩ model d = true ∨
        AccessorFilter.accepts ⟨.field, binding⟩ model d = true ∧ d.isPublic = true) ∧
    ∀ id d info, model.get? id = some d → d.kind = .type info →
      (info.category = .enumType → ∃ values unknownValue, ∀ policy,
        DataType.ofModel ⟨policy, binding⟩ model id =
          .ok ⟨id, info.qualifiedName, .enumeration values unknownValue⟩) ∧
      (info.category ≠ .enumType → ∃ accessors : AccessPolicy → List Accessor,
        (∀ policy, DataType.ofModel ⟨policy, binding⟩ model id =
          .ok ⟨id, info.qualifiedName, .complex (accessors policy)⟩) ∧
        (∀ policy, ((accessors policy).map (·.declaration)).Sublist info.members) ∧
        (∀ policy, (accessors .tagged).Sublist (accessors policy)) ∧
        (accessors .property).Sublist (accessors .publicMember) ∧
        ((accessors .field).filter (DataType.isPublicAccessor model)).Sublist
          (accessors .publicMember) ∧
        ∀ a, a ∈ accessors .publicMember ↔ a ∈ accessors .property ∨
          a ∈ accessors .field ∧ DataType.isPublicAccessor model a = true) := by
  refine ⟨fun d => AccessorFilter.accepts_tagged_iff,
    fun d => AccessorFilter.accepts_publicMember_iff,
    fun id d info h hk => ⟨fun hc => ?_, fun hc => ?_⟩⟩
  · obtain ⟨values, unknownValue, hs⟩ : ∃ values unknownValue, DataType.enumeration binding
        ((model.members id).map (·.2)) = .enumeration values unknownValue := ⟨_, _, rfl⟩
    refine ⟨values, unknownValue, fun policy => ?_⟩
    rw [DataType.ofModel_of_kind h hk, if_pos hc, ← hs]
  · refine ⟨fun policy => DataType.accessorsAt ⟨policy, binding⟩ model id, fun policy => ?_,
      fun policy => DataType.map_declaration_accessorsAt_sublist h hk _,
      DataType.accessorsAt_tagged_sublist model binding id,
      DataType.accessorsAt_property_sublist model binding id,
      DataType.filter_accessorsAt_field_sublist h hk,
      fun a => DataType.mem_accessorsAt_publicMember_iff h hk⟩
    rw [DataType.ofModel_of_kind h hk, if_neg hc]

end ApiDescription
