import ApiDescription.Proofs.Schema.DataTypes
import ApiDescription.Proofs.Schema.Grouping
import ApiDescription.Proofs.Synthesis.Outcome

/-!
# Which types make up the schema

A type belongs to the schema by its tags alone, and the policy has nothing to say about types. So the
test for schema types and the test for accessors, which are written apart, pick the same types. The
policy decides about the accessors of complex types and about nothing else: not about the namespaces of
the schema, the types in them, their order, or the constants of enumerations.

Results:
* `isSchemaType_eq_accepts`: a type belongs to the schema iff it would be accepted as an accessor.
* `schemaTypes_eq`: the schema types in the order of positions.
* `ofModel_withoutAccessors`: without accessors, data types do not depend on the policy.
* `assemble_withoutAccessors`: neither do namespaces.
* `assembleSchema_policy`: the types of the schema, and the schema under two policies.
-/

namespace ApiDescription

variable {model : Model} {filter : AccessorFilter} {id : DeclId} {d : Declaration}

/-! ## Selection -/

namespace SchemaNamespace

/-- Without the transient tag, a binding tag is as good as a binding tag other than it. -/
theorem any_isBindingTag_eq_isExplicit (h : filter.isTransient d = false) :
    (d.tags.names.any filter.binding.isBindingTag) = filter.isExplicit d := by
  have hne : ∀ name ∈ d.tags.names, name ≠ filter.binding.transient := by
    rintro name hname rfl
    have hcontains := TagMap.mem_names.mp hname
    rw [AccessorFilter.isTransient, hcontains] at h
    cases h
  unfold AccessorFilter.isExplicit
  rw [Bool.eq_iff_iff, List.any_eq_true, List.any_eq_true]
  constructor
  · rintro ⟨name, hname, hb⟩
    exact ⟨name, hname, by simp [hne name hname, hb]⟩
  · rintro ⟨name, hname, hb⟩
    exact ⟨name, hname, (Bool.and_eq_true_iff.mp hb).2⟩

/-- **A type belongs to the schema iff it would be accepted as an accessor.** -/
theorem isSchemaType_eq_accepts (model : Model) (filter : AccessorFilter) (h : d.type?.isSome) :
    isSchemaType filter d = filter.accepts model d := by
  obtain ⟨info, hi⟩ := Option.isSome_iff_exists.mp h
  -- no policy brings in a type
  have hpolicy : filter.acceptsByPolicy model d = false := by
    unfold AccessorFilter.acceptsByPolicy
    rw [Declaration.type?_eq_some_iff.mp hi]
  unfold isSchemaType AccessorFilter.accepts
  cases ht : filter.isTransient d with
  | true => rfl
  | false =>
    rw [any_isBindingTag_eq_isExplicit ht, hpolicy]
    cases filter.isExplicit d <;> rfl

/-- The schema types are the types that would be accepted as accessors, in the order of positions. -/
theorem schemaTypes_eq (filter : AccessorFilter) (model : Model) :
    schemaTypes filter model = (List.range model.size).filter fun id =>
      (model.get? id).any fun d => d.type?.isSome && filter.accepts model d := by
  have hfilter : (model.types.filter fun e => isSchemaType filter e.2) =
      model.entries.filter fun e => e.2.type?.isSome && filter.accepts model e.2 := by
    rw [Model.types, List.filter_filter]
    refine List.filter_congr fun e _ => ?_
    cases ht : e.2.type?.isSome with
    | false => simp [ht]
    | true => simp [ht, isSchemaType_eq_accepts model filter ht]
  rw [← Model.map_fst_filter_entries, ← hfilter]
  rfl

end SchemaNamespace

/-! ## What does not depend on the policy -/

/-- The data type with no word about accessors. -/
def DataType.withoutAccessors (type : DataType) : DataType :=
  match type.shape with
  | .complex _ => { type with shape := .complex [] }
  | .enumeration _ _ => type

/-- The namespace with no word about the accessors of its types. -/
def SchemaNamespace.withoutAccessors (space : SchemaNamespace) : SchemaNamespace :=
  { space with types := space.types.map DataType.withoutAccessors }

variable {policy policy' : AccessPolicy} {binding : BindingTags}

/-- Without accessors, data types do not depend on the policy. -/
theorem DataType.ofModel_withoutAccessors (policy policy' : AccessPolicy) (binding : BindingTags)
    (model : Model) (id : DeclId) :
    (ofModel ⟨policy, binding⟩ model id).map withoutAccessors =
      (ofModel ⟨policy', binding⟩ model id).map withoutAccessors := by
  cases hget : model.get? id with
  | none => rw [ofModel_of_none hget, ofModel_of_none hget]
  | some d =>
    cases ht : d.type? with
    | none => rw [ofModel_of_no_type hget ht, ofModel_of_no_type hget ht]
    | some info =>
      have hk := Declaration.type?_eq_some_iff.mp ht
      rw [ofModel_of_kind hget hk, ofModel_of_kind hget hk]
      by_cases hc : info.category = .enumType
      · simp only [if_pos hc]
      · simp only [if_neg hc]
        rfl

namespace SchemaNamespace

/-- An entry changed is the entry of the changed data type. -/
theorem entry_map (f : DataType → DataType) (filter : AccessorFilter) (model : Model) (id : DeclId) :
    (entry filter model id).map (fun e => (e.1, f e.2)) = (do
      let type ← (DataType.ofModel filter model id).map f
      let d ← model.decl id
      return (uriOf d, type)) := by
  unfold entry
  cases DataType.ofModel filter model id with
  | error e => rfl
  | ok type => cases model.decl id <;> rfl

theorem entry_withoutAccessors (policy policy' : AccessPolicy) (binding : BindingTags)
    (model : Model) (id : DeclId) :
    (entry ⟨policy, binding⟩ model id).map (fun e => (e.1, e.2.withoutAccessors)) =
      (entry ⟨policy', binding⟩ model id).map (fun e => (e.1, e.2.withoutAccessors)) := by
  rw [entry_map, entry_map, DataType.ofModel_withoutAccessors policy policy']

variable {ids : List DeclId} {spaces spaces' : List SchemaNamespace}

/-- Without accessors, namespaces do not depend on the policy. -/
theorem assemble_withoutAccessors (h : assemble ⟨policy, binding⟩ model ids = .ok spaces)
    (h' : assemble ⟨policy', binding⟩ model ids = .ok spaces') :
    spaces.map withoutAccessors = spaces'.map withoutAccessors := by
  obtain ⟨entries, he, rfl⟩ := assemble_eq_ok_iff.mp h
  obtain ⟨entries', he', rfl⟩ := assemble_eq_ok_iff.mp h'
  have hentries : entries.map (fun e => (e.1, e.2.withoutAccessors)) =
      entries'.map (fun e => (e.1, e.2.withoutAccessors)) := by
    have hids : (ids.map (entry ⟨policy, binding⟩ model)).map
          (Except.map fun e => (e.1, e.2.withoutAccessors)) =
        (ids.map (entry ⟨policy', binding⟩ model)).map
          (Except.map fun e => (e.1, e.2.withoutAccessors)) := by
      rw [List.map_map, List.map_map]
      exact List.map_congr_left fun id _ => entry_withoutAccessors policy policy' binding model id
    rw [he, he', List.map_map, List.map_map] at hids
    have hok : Function.Injective (Except.ok : String × DataType → Except ModelError _) :=
      fun _ _ => Except.ok.inj
    refine List.map_injective_iff.mpr hok ?_
    rw [List.map_map, List.map_map]
    exact hids
  -- dropping the accessors of the groups is grouping without accessors
  have hgroup : ∀ entries : List (String × DataType),
      ((group entries).toList.map fun g => SchemaNamespace.mk g.1 g.2).map withoutAccessors =
        (group (entries.map fun e => (e.1, e.2.withoutAccessors))).toList.map
          fun g => ⟨g.1, g.2⟩ := by
    intro entries
    rw [toList_group_map, List.map_map, List.map_map]
    rfl
  rw [hgroup, hgroup, hentries]

end SchemaNamespace

/-- **The types of the schema, and the schema under two policies.** Under every policy the schema types
are the types that would be accepted as accessors, in the order of positions, and they are the same
under any other policy. The schemas under two policies have the same namespaces with the same types in
the same order, and differ in the accessors of complex types alone. -/
theorem assembleSchema_policy (model : Model) (binding : BindingTags) :
    (∀ policy, SchemaNamespace.schemaTypes ⟨policy, binding⟩ model =
      (List.range model.size).filter fun id => (model.get? id).any fun d =>
        d.type?.isSome && AccessorFilter.accepts ⟨policy, binding⟩ model d) ∧
    ∀ policy policy',
      SchemaNamespace.schemaTypes ⟨policy, binding⟩ model =
        SchemaNamespace.schemaTypes ⟨policy', binding⟩ model ∧
      ∃ spaces spaces', SchemaNamespace.assembleSchema ⟨policy, binding⟩ model = .ok spaces ∧
        SchemaNamespace.assembleSchema ⟨policy', binding⟩ model = .ok spaces' ∧
        spaces.map (·.withoutAccessors) = spaces'.map (·.withoutAccessors) := by
  refine ⟨fun policy => SchemaNamespace.schemaTypes_eq _ model, fun policy policy' => ?_⟩
  have htypes : SchemaNamespace.schemaTypes ⟨policy, binding⟩ model =
      SchemaNamespace.schemaTypes ⟨policy', binding⟩ model := rfl
  obtain ⟨spaces, h⟩ := SchemaNamespace.exists_assembleSchema ⟨policy, binding⟩ model
  obtain ⟨spaces', h'⟩ := SchemaNamespace.exists_assembleSchema ⟨policy', binding⟩ model
  refine ⟨htypes, spaces, spaces', h, h', ?_⟩
  unfold SchemaNamespace.assembleSchema at h h'
  rw [htypes] at h
  exact SchemaNamespace.assemble_withoutAccessors h h'

end ApiDescription
