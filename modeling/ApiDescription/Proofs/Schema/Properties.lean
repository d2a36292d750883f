import ApiDescription.Proofs.Model.Lookup
import ApiDescription.Proofs.Schema.Names
import ApiDescription.Proofs.Schema.Policies

/-!
# Properties and what they refer to

A property refers to a getter and a setter. A model makes sure that there are declarations behind both
references, but not of which kind they are, and acceptance looks at their visibility alone. So a property
may be accepted whose getter is a public field. It is defined by public methods exactly if its references
lead to methods to begin with.

Results:
* `hasPublicAccessors_iff`: both references lead to public declarations.
* `accepts_property_iff`: which properties without a binding tag are accepted.
* `accepts_untagged_property`: what an accepted property is defined by; `fieldGetter_accepted` is one that
  is not defined by methods.
-/

namespace ApiDescription

/-- Whether the declaration is a method. -/
def Declaration.isMethod (d : Declaration) : Bool :=
  d.kind.name = .method

/-- The declarations that the two references of a property lead to. -/
structure Model.Accessors (model : Model) (getter setter : Option DeclId) (g s : Declaration) :
    Prop where
  getter : ∃ id, getter = some id ∧ model.get? id = some g
  setter : ∃ id, setter = some id ∧ model.get? id = some s

/-- A property is complete, and both its references lead to public methods. -/
def Model.DefinedByPublicMethods (model : Model) (getter setter : Option DeclId) : Prop :=
  ∃ g s, model.Accessors getter setter g s ∧ (g.isMethod = true ∧ g.isPublic = true) ∧
    s.isMethod = true ∧ s.isPublic = true

variable {model : Model} {filter : AccessorFilter} {id : DeclId} {d : Declaration}
  {getter setter : Option DeclId}

namespace AccessorFilter

/-- Both references have to lead to something public. -/
theorem hasPublicAccessors_eq (model : Model) (getter setter : Option DeclId) :
    hasPublicAccessors model getter setter =
      ((getter.bind model.get?).any (·.isPublic) && (setter.bind model.get?).any (·.isPublic)) := by
  unfold hasPublicAccessors
  cases getter.bind model.get? <;> cases setter.bind model.get? <;> simp

theorem hasPublicAccessors_iff :
    hasPublicAccessors model getter setter = true ↔
      ∃ g s, model.Accessors getter setter g s ∧ g.isPublic = true ∧ s.isPublic = true := by
  simp only [hasPublicAccessors_eq, Bool.and_eq_true, Option.any_eq_true, Option.bind_eq_some_iff]
  constructor
  · rintro ⟨⟨g, hg, hgpublic⟩, s, hs, hspublic⟩
    exact ⟨g, s, ⟨hg, hs⟩, hgpublic, hspublic⟩
  · rintro ⟨g, s, haccessors, hgpublic, hspublic⟩
    exact ⟨⟨g, haccessors.getter, hgpublic⟩, s, haccessors.setter, hspublic⟩

theorem isExplicit_eq_false (h : ∀ name, d.tags.contains name = true → ¬ filter.binding.Binds name) :
    filter.isExplicit d = false := by
  rw [isExplicit, List.any_eq_false]
  intro name hname
  have hbinds := h name (TagMap.mem_names.mp hname)
  rw [← BindingTags.isBindingTag_iff] at hbinds
  simp [hbinds]

/-- A property without a binding tag is accepted for its references, under the two policies that are
about properties. -/
theorem accepts_property_iff (hk : d.kind = .property getter setter)
    (huntagged : ∀ name, d.tags.contains name = true → ¬ filter.binding.Binds name) :
    filter.accepts model d = true ↔ filter.isTransient d = false ∧
      (filter.policy = .property ∨ filter.policy = .publicMember) ∧
      ∃ g s, model.Accessors getter setter g s ∧ g.isPublic = true ∧ s.isPublic = true := by
  have hpolicy : filter.acceptsByPolicy model d = true ↔
      (filter.policy = .property ∨ filter.policy = .publicMember) ∧
        hasPublicAccessors model getter setter = true := by
    unfold acceptsByPolicy
    rw [hk]
    cases filter.policy <;> simp
  rw [accepts_iff, isExplicit_eq_false huntagged, hpolicy, hasPublicAccessors_iff]
  simp

end AccessorFilter

/-- Two references lead to public methods iff they lead to public declarations, and to methods. -/
theorem Model.definedByPublicMethods_iff {g s : Declaration}
    (haccessors : model.Accessors getter setter g s) (hg : g.isPublic = true)
    (hs : s.isPublic = true) :
    model.DefinedByPublicMethods getter setter ↔ ∀ reference ∈ getter.toList ++ setter.toList,
      ∃ m, model.get? reference = some m ∧ m.isMethod = true := by
  obtain ⟨⟨getterId, rfl, hget⟩, setterId, rfl, hset⟩ := haccessors
  constructor
  · rintro ⟨g', s', haccessors', ⟨hgetter, -⟩, hsetter, -⟩
    obtain ⟨_, hid, hget'⟩ := haccessors'.getter
    obtain rfl := Option.some.inj hid
    obtain ⟨_, hid, hset'⟩ := haccessors'.setter
    obtain rfl := Option.some.inj hid
    simp only [Option.toList_some, List.cons_append, List.nil_append, List.forall_mem_cons]
    exact ⟨⟨g', hget', hgetter⟩, ⟨s', hset', hsetter⟩, by simp⟩
  · intro hall
    obtain ⟨g', hget', hgetter⟩ := hall getterId (by simp)
    obtain ⟨s', hset', hsetter⟩ := hall setterId (by simp)
    obtain rfl := Option.some.inj (hget.symm.trans hget')
    obtain rfl := Option.some.inj (hset.symm.trans hset')
    exact ⟨g, s, ⟨⟨_, rfl, hget⟩, _, rfl, hset⟩, ⟨hgetter, hg⟩, hsetter, hs⟩

/-- **What an accepted property is defined by.** The references of a property of a model lead somewhere.
If the property has no binding tag it is accepted iff it is not transient, the policy is about properties,
and both references are there and lead to public declarations. So an accepted property is complete, and it
is defined by public methods iff its references lead to methods; their kind has no say in acceptance. -/
theorem accepts_untagged_property (h : model.get? id = some d) (hk : d.kind = .property getter setter)
    (huntagged : ∀ name, d.tags.contains name = true → ¬ filter.binding.Binds name) :
    (∀ reference ∈ getter.toList ++ setter.toList, ∃ m, model.get? reference = some m) ∧
    (filter.accepts model d = true ↔ filter.isTransient d = false ∧
      (filter.policy = .property ∨ filter.policy = .publicMember) ∧
      ∃ g s, model.Accessors getter setter g s ∧ g.isPublic = true ∧ s.isPublic = true) ∧
    (filter.accepts model d = true →
      (model.DefinedByPublicMethods getter setter ↔ ∀ reference ∈ getter.toList ++ setter.toList,
        ∃ m, model.get? reference = some m ∧ m.isMethod = true)) := by
  refine ⟨fun reference hmem => Model.exists_accessorMethod h hk hmem,
    AccessorFilter.accepts_property_iff hk huntagged, fun haccepts => ?_⟩
  obtain ⟨-, -, g, s, haccessors, hg, hs⟩ :=
    (AccessorFilter.accepts_property_iff hk huntagged).mp haccepts
  exact Model.definedByPublicMethods_iff haccessors hg hs

/-- The amount of a price, with a getter and a setter. -/
def amountProperty : Declaration :=
  .ofProperty "amount" (.primitive "long") (some 0) (some 1)

/-- The declarations of an amount that is read through what is given and written through a method. -/
def amountDeclarations (getter : Declaration) : List Declaration :=
  [getter.withVisibility .everyone,
    (Declaration.ofMethod "setAmount" .void).withVisibility .everyone,
    amountProperty]

/-- The model of an amount that is read through a method. -/
def methodAmount : Model where
  decls := amountDeclarations (.ofMethod "getAmount" (.primitive "long"))
  consistent := fault?_eq_none_iff.mp (by decide +kernel)

/-- The model of an amount that is read through a field. -/
def fieldAmount : Model where
  decls := amountDeclarations (.ofField "amount" (.primitive "long"))
  consistent := fault?_eq_none_iff.mp (by decide +kernel)

theorem amountProperty_untagged (name : String) :
    amountProperty.tags.contains name = true → ¬ ({} : BindingTags).Binds name := by
  have hnone : amountProperty.tags.get name = [] := TagMap.get_empty name
  simp [TagMap.contains, hnone]

/-- An amount that is read and written through public methods is accepted, and is defined by them. -/
theorem methodAmount_defined : methodAmount.get? 2 = some amountProperty ∧
    amountProperty.kind = .property (some 0) (some 1) ∧
    (∀ name, amountProperty.tags.contains name = true → ¬ ({} : BindingTags).Binds name) ∧
    AccessorFilter.accepts ⟨.property, {}⟩ methodAmount amountProperty = true ∧
    methodAmount.DefinedByPublicMethods (some 0) (some 1) := by
  obtain ⟨-, -, hdefined⟩ := @accepts_untagged_property methodAmount ⟨.property, {}⟩ 2 _ _ _ rfl rfl
    amountProperty_untagged
  have haccepts : AccessorFilter.accepts ⟨.property, {}⟩ methodAmount amountProperty = true := by
    decide +kernel
  refine ⟨rfl, rfl, amountProperty_untagged, haccepts, (hdefined haccepts).mpr ?_⟩
  simp only [Option.toList_some, List.cons_append, List.nil_append, List.forall_mem_cons]
  exact ⟨⟨_, rfl, rfl⟩, ⟨_, rfl, rfl⟩, by simp⟩

/-- An amount that is read through a public field is accepted, and is not defined by methods. -/
theorem fieldGetter_accepted : fieldAmount.get? 2 = some amountProperty ∧
    amountProperty.kind = .property (some 0) (some 1) ∧
    (∀ name, amountProperty.tags.contains name = true → ¬ ({} : BindingTags).Binds name) ∧
    AccessorFilter.accepts ⟨.property, {}⟩ fieldAmount amountProperty = true ∧
    ¬ fieldAmount.DefinedByPublicMethods (some 0) (some 1) := by
  refine ⟨rfl, rfl, amountProperty_untagged, by decide +kernel, ?_⟩
  rintro ⟨g, s, haccessors, ⟨hmethod, -⟩, -⟩
  obtain ⟨_, hid, hget⟩ := haccessors.getter
  obtain rfl := Option.some.inj hid
  obtain rfl := Option.some.inj hget
  exact absurd hmethod (by decide)

end ApiDescription
