import ApiDescription.Proofs.Model.Lookup
import ApiDescription.Proofs.Traversal
import ApiDescription.Surface.Basic

/-!
# When a run and a description succeed

A run fails for want of an access policy and for nothing else: the schema types are types of the
model, so the schema always assembles. A handler is described exactly if its method is a method of the
model and its ancestors are in the model; the parameters of a method of a model always are. What goes
wrong otherwise is one of three things, and `Handler.Fault` says which one is reported.

Results:
* `describe_eq_ok_iff`: a description is the descriptor of the declarations that the handler resolves
  to (`Handler.Resolves`).
* `describe_eq_error_iff`: a description fails with an error iff the handler has that fault.
* `exists_assembleSchema`: the schema of a model assembles.
* `run_describe_outcome`: the outcome of a run and of each description in it.
-/

namespace ApiDescription

variable {model : Model} {id : DeclId} {d : Declaration}

/-! ## Handlers -/

namespace Handler

/-- The declarations that a handler refers to: its method, its ancestors, and the parameters of the
method with their positions. -/
structure Resolves (model : Model) (handler : Handler) (d : Declaration)
    (ancestors : List Declaration) (parameters : List (DeclId × Declaration)) : Prop where
  method : model.get? handler.method = some d
  kind : d.kind = .method (parameters.map (·.1))
  ancestors : handler.ancestors.map model.get? = ancestors.map some
  parameters : ∀ e ∈ parameters, model.get? e.1 = some e.2

/-- The handler is a method of the model, and all its ancestors are in the model. -/
def Describable (model : Model) (handler : Handler) : Prop :=
  (∃ d ids, model.get? handler.method = some d ∧ d.kind = .method ids) ∧
    ∀ a ∈ handler.ancestors, a < model.size

/-- What is wrong with a handler, each fault only where the ones before it are absent. -/
inductive Fault (model : Model) (handler : Handler) : SynthesisError → Prop where
  | unknownMethod (h : model.size ≤ handler.method) :
      Fault model handler
        (.model ("declaration #" ++ handler.method.repr) (.unknownDeclaration handler.method))
  | notMethod {d : Declaration} (h : model.get? handler.method = some d)
      (hk : ∀ ids, d.kind ≠ .method ids) : Fault model handler (.notAHandler d.label)
  /-- The ancestor behind `before` is the first one that is not in the model. -/
  | unknownAncestor {d : Declaration} {ids before after : List DeclId} {id : DeclId}
      (h : model.get? handler.method = some d) (hk : d.kind = .method ids)
      (hs : handler.ancestors = before ++ id :: after) (hb : ∀ a ∈ before, a < model.size)
      (hid : model.size ≤ id) :
      Fault model handler (.model d.label (.unknownDeclaration id))

end Handler

/-! ## Descriptions -/

namespace Synthesizer

variable {s : Synthesizer} {label : String} {handler : Handler}

theorem lookup_eq_ok_iff : s.lookup label id = .ok d ↔ s.model.get? id = some d := by
  rw [lookup, mapError_eq_ok_iff, Model.decl_eq_ok_iff]

theorem lookup_eq_error_iff {e : SynthesisError} :
    s.lookup label id = .error e ↔
      s.model.size ≤ id ∧ e = .model label (.unknownDeclaration id) := by
  rw [lookup, mapError_eq_error_iff]
  constructor
  · rintro ⟨cause, hc, rfl⟩
    obtain ⟨hle, rfl⟩ := Model.decl_eq_error_iff.mp hc
    exact ⟨hle, rfl⟩
  · rintro ⟨hle, rfl⟩
    exact ⟨_, Model.decl_eq_error_iff.mpr ⟨hle, rfl⟩, rfl⟩

theorem exists_lookup_iff : (∃ d, s.lookup label id = .ok d) ↔ id < s.model.size := by
  simp only [lookup_eq_ok_iff, Model.exists_get?_iff]

theorem lookup_pair_eq_ok_iff {e : DeclId × Declaration} :
    (do return (id, ← s.lookup label id)) = Except.ok e ↔
      id = e.1 ∧ s.model.get? e.1 = some e.2 := by
  obtain ⟨id', p⟩ := e
  simp only [bind_eq_ok_iff, lookup_eq_ok_iff, pure, Except.pure, Except.ok.injEq, Prod.mk.injEq]
  constructor
  · rintro ⟨_, hp, rfl, rfl⟩
    exact ⟨rfl, hp⟩
  · rintro ⟨rfl, hp⟩
    exact ⟨p, hp, rfl, rfl⟩

theorem mapM_lookup_pairs_iff {ids : List DeclId} {parameters : List (DeclId × Declaration)} :
    (ids.mapM fun id => return (id, ← s.lookup label id)) = .ok parameters ↔
      ids = parameters.map (·.1) ∧ ∀ e ∈ parameters, s.model.get? e.1 = some e.2 := by
  rw [mapM_eq_ok_iff]
  induction ids generalizing parameters with
  | nil => cases parameters <;> simp
  | cons id ids ih =>
    cases parameters with
    | nil => simp
    | cons e parameters =>
      simp only [List.map_cons, List.cons.injEq, lookup_pair_eq_ok_iff, ih, List.forall_mem_cons]
      constructor
      · rintro ⟨⟨rfl, hp⟩, rfl, hall⟩
        exact ⟨⟨rfl, rfl⟩, hp, hall⟩
      · rintro ⟨⟨rfl, rfl⟩, hp, hall⟩
        exact ⟨⟨rfl, hp⟩, rfl, hall⟩

/-- The parameters of a method of the model can all be looked up. -/
theorem exists_mapM_lookup (label : String) {ids : List DeclId} (h : s.model.get? id = some d)
    (hk : d.kind = .method ids) :
    ∃ parameters, (ids.mapM fun id => return (id, ← s.lookup label id)) = .ok parameters := by
  refine exists_mapM_eq_ok_iff.mpr fun parameter hp => ?_
  obtain ⟨p, hget, -⟩ := Model.exists_parameter h hk hp
  exact ⟨(parameter, p), bind_eq_ok_iff.mpr ⟨p, lookup_eq_ok_iff.mpr hget, rfl⟩⟩

theorem mapM_lookup_ancestors_iff {ids : List DeclId} {ancestors : List Declaration} :
    ids.mapM (s.lookup label) = .ok ancestors ↔
      ids.map s.model.get? = ancestors.map some := by
  rw [mapM_eq_ok_iff]
  induction ids generalizing ancestors with
  | nil => cases ancestors <;> simp
  | cons id ids ih => cases ancestors <;> simp [ih, lookup_eq_ok_iff]

/-- **A description is the descriptor of what its handler resolves to.** -/
theorem describe_eq_ok_iff {r : Descriptor} :
    s.describe handler = .ok r ↔ ∃ d ancestors parameters,
      handler.Resolves s.model d ancestors parameters ∧
        r = s.descriptor handler.context handler.method d ancestors parameters := by
  unfold describe
  rw [bind_eq_ok_iff]
  constructor
  · rintro ⟨d, hd, hbody⟩
    split at hbody
    · cases hbody
    · rename_i ids hids
      obtain ⟨ancestors, ha, hrest⟩ := bind_eq_ok_iff.mp hbody
      obtain ⟨parameters, hp, hr⟩ := bind_eq_ok_iff.mp hrest
      obtain ⟨rfl, hget⟩ := mapM_lookup_pairs_iff.mp hp
      exact ⟨d, ancestors, parameters,
        ⟨lookup_eq_ok_iff.mp hd, Declaration.parameters?_eq_some_iff.mp hids,
          mapM_lookup_ancestors_iff.mp ha, hget⟩, (Except.ok.inj hr).symm⟩
  · rintro ⟨d, ancestors, parameters, hres, rfl⟩
    refine ⟨d, lookup_eq_ok_iff.mpr hres.method, ?_⟩
    rw [Declaration.parameters?_eq_some_iff.mpr hres.kind]
    refine bind_eq_ok_iff.mpr ⟨ancestors, mapM_lookup_ancestors_iff.mpr hres.ancestors, ?_⟩
    exact bind_eq_ok_iff.mpr
      ⟨parameters, mapM_lookup_pairs_iff.mpr ⟨rfl, hres.parameters⟩, rfl⟩

/-- **A description fails with the fault of its handler.** -/
theorem describe_eq_error_iff {e : SynthesisError} :
    s.describe handler = .error e ↔ handler.Fault s.model e := by
  unfold describe
  rw [bind_eq_error_iff]
  constructor
  · rintro (hd | ⟨d, hd, he⟩)
    · obtain ⟨hle, rfl⟩ := lookup_eq_error_iff.mp hd
      exact .unknownMethod hle
    · have hget := lookup_eq_ok_iff.mp hd
      split at he
      · rename_i hnone
        obtain rfl := Except.error.inj he
        exact .notMethod hget (Declaration.parameters?_eq_none_iff.mp hnone)
      · rename_i ids hids
        have hk := Declaration.parameters?_eq_some_iff.mp hids
        obtain ha | ⟨ancestors, -, he⟩ := bind_eq_error_iff.mp he
        · obtain ⟨before, id, after, hs, hb, hid⟩ := mapM_eq_error_iff.mp ha
          obtain ⟨hle, rfl⟩ := lookup_eq_error_iff.mp hid
          exact .unknownAncestor hget hk hs (fun a ha => exists_lookup_iff.mp (hb a ha)) hle
        · -- the parameters of a method of the model are never missing
          obtain ⟨parameters, hp⟩ := exists_mapM_lookup d.label hget hk
          rw [hp] at he
          cases he
  · intro hf
    cases hf with
    | unknownMethod h => exact .inl (lookup_eq_error_iff.mpr ⟨h, rfl⟩)
    | @notMethod d h hk =>
      refine .inr ⟨d, lookup_eq_ok_iff.mpr h, ?_⟩
      rw [Declaration.parameters?_eq_none_iff.mpr hk]
    | @unknownAncestor d ids before after id h hk hs hb hid =>
      refine .inr ⟨d, lookup_eq_ok_iff.mpr h, ?_⟩
      rw [Declaration.parameters?_eq_some_iff.mpr hk]
      refine bind_eq_error_iff.mpr (.inl (mapM_eq_error_iff.mpr ?_))
      exact ⟨before, id, after, hs, fun a ha => exists_lookup_iff.mpr (hb a ha),
        lookup_eq_error_iff.mpr ⟨hid, rfl⟩⟩

theorem exists_describe_iff :
    (∃ r, s.describe handler = .ok r) ↔ handler.Describable s.model := by
  simp only [describe_eq_ok_iff]
  constructor
  · rintro ⟨_, d, ancestors, parameters, hres, -⟩
    refine ⟨⟨d, _, hres.method, hres.kind⟩, fun a ha => ?_⟩
    have hm : s.model.get? a ∈ ancestors.map some :=
      hres.ancestors ▸ List.mem_map_of_mem ha
    obtain ⟨d', -, hd'⟩ := List.mem_map.mp hm
    exact Model.exists_get?_iff.mp ⟨d', hd'.symm⟩
  · rintro ⟨⟨d, ids, hget, hk⟩, hanc⟩
    have hanc : ∀ a ∈ handler.ancestors, ∃ p, s.lookup d.label a = .ok p :=
      fun a ha => exists_lookup_iff.mpr (hanc a ha)
    obtain ⟨ancestors, ha⟩ := exists_mapM_eq_ok_iff.mpr hanc
    obtain ⟨parameters, hp⟩ := exists_mapM_lookup d.label hget hk
    obtain ⟨rfl, hall⟩ := mapM_lookup_pairs_iff.mp hp
    exact ⟨_, d, ancestors, parameters,
      ⟨hget, hk, mapM_lookup_ancestors_iff.mp ha, hall⟩, rfl⟩

end Synthesizer

/-! ## The schema -/

namespace SchemaNamespace

variable {filter : AccessorFilter} {ids : List DeclId}

/-- A position has an entry in the schema iff a type stands there. -/
theorem exists_entry_iff :
    (∃ e, entry filter model id = .ok e) ↔ ∃ d, model.get? id = some d ∧ d.type?.isSome := by
  simp only [entry, DataType.ofModel, bind_eq_ok_iff, Model.decl_eq_ok_iff]
  constructor
  · rintro ⟨_, _, ⟨d, hget, ht⟩, -⟩
    refine ⟨d, hget, ?_⟩
    cases hd : d.type? with
    | none => simp [hd] at ht
    | some info => rfl
  · rintro ⟨d, hget, ht⟩
    obtain ⟨info, hd⟩ := Option.isSome_iff_exists.mp ht
    exact ⟨_, _, ⟨d, hget, by rw [hd]; rfl⟩, d, hget, rfl⟩

theorem exists_assemble_iff :
    (∃ spaces, assemble filter model ids = .ok spaces) ↔
      ∀ id ∈ ids, ∃ d, model.get? id = some d ∧ d.type?.isSome := by
  have hentries : (∃ entries, ids.mapM (entry filter model) = .ok entries) ↔
      ∀ id ∈ ids, ∃ d, model.get? id = some d ∧ d.type?.isSome := by
    simp only [exists_mapM_eq_ok_iff, exists_entry_iff]
  rw [← hentries]
  simp only [assemble, bind_eq_ok_iff]
  exact ⟨fun ⟨_, entries, h, _⟩ => ⟨entries, h⟩, fun ⟨entries, h⟩ => ⟨_, entries, h, rfl⟩⟩

theorem mem_schemaTypes_iff :
    id ∈ schemaTypes filter model ↔
      ∃ d, model.get? id = some d ∧ d.type?.isSome ∧ isSchemaType filter d = true := by
  simp only [schemaTypes, List.mem_map, List.mem_filter, Prod.exists, Model.mem_types_iff]
  constructor
  · rintro ⟨_, d, ⟨⟨hget, ht⟩, hs⟩, rfl⟩
    exact ⟨d, hget, ht, hs⟩
  · rintro ⟨d, hget, ht, hs⟩
    exact ⟨id, d, ⟨⟨hget, ht⟩, hs⟩, rfl⟩

/-- The schema types of a model are types of the model, so nothing can go wrong with them. -/
theorem exists_assembleSchema (filter : AccessorFilter) (model : Model) :
    ∃ spaces, assembleSchema filter model = .ok spaces := by
  refine exists_assemble_iff.mpr fun id hid => ?_
  obtain ⟨d, hget, ht, -⟩ := mem_schemaTypes_iff.mp hid
  exact ⟨d, hget, ht⟩

end SchemaNamespace

/-! ## Runs -/

theorem Synthesizer.ofConfiguration_eq_ok_iff {config : Configuration} {s : Synthesizer} :
    Synthesizer.ofConfiguration model config = .ok s ↔ ∃ policy,
      config.accessPolicy = some policy ∧
        s = ⟨model, config.vocabulary, ⟨policy, config.vocabulary.binding⟩⟩ := by
  unfold Synthesizer.ofConfiguration Configuration.policy
  cases config.accessPolicy with
  | none => simp [bind, Except.bind]
  | some policy => simp [bind, Except.bind, pure, Except.pure, eq_comm]

theorem Synthesizer.ofConfiguration_eq_error_iff {config : Configuration} {e : ConfigError} :
    Synthesizer.ofConfiguration model config = .error e ↔
      config.accessPolicy = none ∧ e = .missingAccessPolicy := by
  unfold Synthesizer.ofConfiguration Configuration.policy
  cases config.accessPolicy with
  | none => simp [bind, Except.bind, eq_comm]
  | some policy => simp [bind, Except.bind, pure, Except.pure]

namespace ApiSurface

variable {handlers : List Handler} {config : Configuration}

theorem run_eq_ok_iff {surface : ApiSurface} :
    run model handlers config = .ok surface ↔ ∃ s,
      Synthesizer.ofConfiguration model config = .ok s ∧
      surface.report = s.describeAll handlers ∧
        SchemaNamespace.assembleSchema s.filter model = .ok surface.namespaces := by
  unfold run
  rw [bind_eq_ok_iff]
  constructor
  · rintro ⟨s, hs, hrest⟩
    obtain ⟨spaces, hspaces, hr⟩ := bind_eq_ok_iff.mp hrest
    obtain rfl := Except.ok.inj hr
    exact ⟨s, mapError_eq_ok_iff.mp hs, rfl, mapError_eq_ok_iff.mp hspaces⟩
  · rintro ⟨s, hs, hreport, hspaces⟩
    refine ⟨s, mapError_eq_ok_iff.mpr hs, ?_⟩
    refine bind_eq_ok_iff.mpr ⟨_, mapError_eq_ok_iff.mpr hspaces, ?_⟩
    rw [← hreport]
    rfl

theorem run_eq_error_iff {e : RunError} :
    run model handlers config = .error e ↔
      config.accessPolicy = none ∧ e = .config .missingAccessPolicy := by
  unfold run
  rw [bind_eq_error_iff]
  constructor
  · rintro (he | ⟨s, -, hrest⟩)
    · obtain ⟨cause, hc, rfl⟩ := mapError_eq_error_iff.mp he
      obtain ⟨hnone, rfl⟩ := Synthesizer.ofConfiguration_eq_error_iff.mp hc
      exact ⟨hnone, rfl⟩
    · obtain ⟨spaces, hspaces⟩ := SchemaNamespace.exists_assembleSchema s.filter model
      rw [hspaces] at hrest
      cases hrest
  · rintro ⟨hnone, rfl⟩
    exact .inl (mapError_eq_error_iff.mpr
      ⟨_, Synthesizer.ofConfiguration_eq_error_iff.mpr ⟨hnone, rfl⟩, rfl⟩)

end ApiSurface

/-- **The outcome of a run and of its descriptions.** A run over any model fails iff it has no access
policy, and then with that error. In a run a handler is described iff it is describable, and fails with
its fault otherwise; the parameters of a method are never what is missing. -/
theorem run_describe_outcome (model : Model) (handlers : List Handler) (config : Configuration) :
    ((∃ e, ApiSurface.run model handlers config = .error e) ↔ config.accessPolicy = none) ∧
    (∀ e, ApiSurface.run model handlers config = .error e → e = .config .missingAccessPolicy) ∧
    (∀ surface, ApiSurface.run model handlers config = .ok surface →
      ∃ s, Synthesizer.ofConfiguration model config = .ok s ∧
        surface.report = s.describeAll handlers) ∧
    ∀ s, Synthesizer.ofConfiguration model config = .ok s → ∀ handler : Handler,
      ((∃ r, s.describe handler = .ok r) ↔ handler.Describable model) ∧
      (∀ e, s.describe handler = .error e ↔ handler.Fault model e) ∧
      ∀ d ids, model.get? handler.method = some d → d.kind = .method ids →
        ∀ id ∈ ids, ∃ p, s.lookup d.label id = .ok p := by
  refine ⟨?_, fun e he => (ApiSurface.run_eq_error_iff.mp he).2, fun surface h => ?_,
    fun s hs handler => ?_⟩
  · constructor
    · rintro ⟨e, he⟩
      exact (ApiSurface.run_eq_error_iff.mp he).1
    · intro hnone
      exact ⟨_, ApiSurface.run_eq_error_iff.mpr ⟨hnone, rfl⟩⟩
  · obtain ⟨s, hs, hreport, -⟩ := ApiSurface.run_eq_ok_iff.mp h
    exact ⟨s, hs, hreport⟩
  · obtain ⟨policy, -, rfl⟩ := Synthesizer.ofConfiguration_eq_ok_iff.mp hs
    refine ⟨Synthesizer.exists_describe_iff, fun e => Synthesizer.describe_eq_error_iff, ?_⟩
    intro d ids hget hk id hid
    obtain ⟨p, hp, -⟩ := Model.exists_parameter hget hk hid
    exact ⟨p, Synthesizer.lookup_eq_ok_iff.mpr hp⟩

end ApiDescription
