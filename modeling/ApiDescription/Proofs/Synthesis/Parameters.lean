import ApiDescription.Proofs.Synthesis.Outcome

/-!
# The parameters of a descriptor

Three sources feed the request parameters of a descriptor: the classification of the parameters of the
method, the taking apart of model attributes, and the documented request headers. Their results are
`candidates`, in that order. They go one by one into a map by identity that keeps what it has, so the
descriptor ends up with the first candidate of every identity, in the order of identities.

Results:
* `getElem?_addParameters`: after adding parameters to a descriptor, an identity has what it had
  before, and otherwise the first added parameter of that identity.
* `addParameters_eq`: nothing else of the descriptor changes.
* `mem_requestParameters_iff`, `pairwise_precedes`: what the listing of the map holds, and its order.
* `descriptor_drop_bodies`: parameters that take the body make no difference behind the first one.
* `kind_ne_entity_of_mem_candidates`: no candidate is an entity.
* `describe_parameters`: the request parameters and the entity of a description, from its candidates.
-/

namespace ApiDescription

/-- One parameter stands before another: by kind, and within a kind by name. -/
def RequestParameter.Precedes (a b : RequestParameter) : Prop :=
  a.kind.rank < b.kind.rank ∨ a.kind = b.kind ∧ a.name < b.name

theorem RequestParameter.compare_identity_eq_lt_iff {a b : RequestParameter} :
    compare a.identity b.identity = .lt ↔ a.Precedes b := by
  rw [ParameterIdentity.compare_eq, Ordering.then_eq_lt, Nat.compare_eq_lt, Nat.compare_eq_eq,
    NameMap.compare_eq_lt_iff]
  refine or_congr Iff.rfl (and_congr ⟨ParameterKind.rank_injective, fun h => ?_⟩ Iff.rfl)
  exact congrArg ParameterKind.rank h

/-- The values of a map in the order of its keys. -/
theorem values_eq_map_snd {κ α : Type} [Ord κ] [Std.TransOrd κ] (m : Std.ExtTreeMap κ α) :
    m.values = m.toList.map (·.2) := by
  have h : m.values = m.foldr (fun _ a as => a :: as) [] := by
    obtain ⟨⟨_⟩⟩ := m
    rfl
  rw [h, Std.ExtTreeMap.foldr_eq_foldr_toList]
  induction m.toList with
  | nil => rfl
  | cons e es ih => simp [ih]

namespace Descriptor

variable {r : Descriptor} {p : RequestParameter}

/-! ## Adding parameters -/

theorem getElem?_addParameter (r : Descriptor) (p : RequestParameter) (i : ParameterIdentity) :
    (r.addParameter p).parameters[i]? =
      r.parameters[i]?.or (if p.identity = i then some p else none) := by
  rw [addParameter, Std.ExtTreeMap.getElem?_insertIfNew]
  by_cases hi : p.identity = i
  · subst hi
    by_cases hm : p.identity ∈ r.parameters
    · simp [hm]
    · simp [hm]
  · have hc : compare p.identity i ≠ .eq := fun h => hi (Std.LawfulEqOrd.eq_of_compare h)
    simp [hi, hc]

/-- An identity keeps what it has, and otherwise gets the first parameter that has it. -/
theorem getElem?_addParameters (r : Descriptor) (ps : List RequestParameter)
    (i : ParameterIdentity) :
    (r.addParameters ps).parameters[i]? =
      r.parameters[i]?.or (ps.find? fun p => p.identity = i) := by
  unfold addParameters
  induction ps generalizing r with
  | nil => simp
  | cons p ps ih =>
    rw [List.foldl_cons, ih, getElem?_addParameter, Option.or_assoc, List.find?_cons]
    by_cases hi : p.identity = i <;> simp [hi]

/-- Adding parameters changes nothing but the parameters. -/
theorem addParameters_eq (r : Descriptor) (ps : List RequestParameter) :
    r.addParameters ps = { r with parameters := (r.addParameters ps).parameters } := by
  unfold addParameters
  induction ps generalizing r with
  | nil => rfl
  | cons p ps ih =>
    rw [List.foldl_cons, ih]
    rfl

/-! ## Listing parameters -/

/-- Every parameter of the map stands under its identity. -/
def Keyed (r : Descriptor) : Prop :=
  ∀ (i : ParameterIdentity) (p : RequestParameter), r.parameters[i]? = some p → p.identity = i

theorem keyed_addParameters (hr : r.parameters = ∅) (ps : List RequestParameter) :
    (r.addParameters ps).Keyed := by
  intro i p hp
  rw [getElem?_addParameters, hr, Std.ExtTreeMap.getElem?_empty, Option.none_or] at hp
  simpa using List.find?_some hp

theorem mem_requestParameters_iff (hk : r.Keyed) :
    p ∈ r.requestParameters ↔ r.parameters[p.identity]? = some p := by
  simp only [requestParameters, values_eq_map_snd, List.mem_map, Prod.exists,
    Std.ExtTreeMap.mem_toList_iff_getElem?_eq_some, exists_eq_right]
  constructor
  · rintro ⟨i, hi⟩
    rwa [hk i p hi]
  · intro h
    exact ⟨_, h⟩

theorem pairwise_precedes (hk : r.Keyed) :
    r.requestParameters.Pairwise RequestParameter.Precedes := by
  rw [requestParameters, values_eq_map_snd, List.pairwise_map]
  refine Std.ExtTreeMap.ordered_keys_toList.imp_of_mem fun {a b} ha hb hlt => ?_
  rw [← RequestParameter.compare_identity_eq_lt_iff,
    hk _ _ (Std.ExtTreeMap.mem_toList_iff_getElem?_eq_some.mp ha),
    hk _ _ (Std.ExtTreeMap.mem_toList_iff_getElem?_eq_some.mp hb)]
  exact hlt

end Descriptor

/-! ## Candidates -/

namespace Classification

/-- Classification never makes an entity. -/
theorem kind_ne_entity_of_mem_classify {c : Classification} {id : DeclId} {q : Declaration}
    {p : RequestParameter} (h : p ∈ c.classify id q) : p.kind ≠ .entity := by
  unfold classify at h
  split at h
  · rename_i tag kind hb
    obtain rfl := List.mem_singleton.mp h
    obtain ⟨binding, hmem, hf⟩ := List.exists_of_findSome?_eq_some hb
    obtain ⟨_, -, he⟩ := Option.map_eq_some_iff.mp hf
    obtain ⟨-, rfl⟩ := Prod.mk.inj he
    simp only [bindings, List.mem_cons, List.not_mem_nil, or_false] at hmem
    rcases hmem with rfl | rfl | rfl | rfl | rfl | rfl <;> simp [whole]
  · split at h
    · unfold expand at h
      split at h
      · obtain rfl := List.mem_singleton.mp h
        simp [whole]
      · obtain ⟨_, -, rfl⟩ := List.mem_map.mp h
        simp
    · obtain rfl := List.mem_singleton.mp h
      simp only [whole, plainKind]
      split
      · simp
      · split <;> simp

end Classification

namespace Synthesizer

/-- The classification of the parameters of a method with its ancestors. -/
def classification (s : Synthesizer) (context : TypeContext) (d : Declaration)
    (ancestors : List Declaration) : Classification where
  model := s.model
  vocabulary := s.vocabulary
  filter := s.filter
  context := context
  metadata := .of s.vocabulary d ancestors

/-- What is offered as request parameter, in order: the classified parameters that do not take the
body, then the documented request headers. -/
def candidates (s : Synthesizer) (context : TypeContext) (d : Declaration)
    (ancestors : List Declaration) (parameters : List (DeclId × Declaration)) :
    List RequestParameter :=
  ((parameters.filter fun e => !takesBody s.vocabulary.web e.2).flatMap
    fun e => (s.classification context d ancestors).classify e.1 e.2) ++
  (Metadata.requestHeaders s.vocabulary d ancestors).documentedFirst.map
    fun e => { name := e.1, kind := .header, description := e.2 }

/-- The entity that a parameter of the method makes. -/
def entityOf (s : Synthesizer) (context : TypeContext) (d : Declaration)
    (ancestors : List Declaration) (id : DeclId) (q : Declaration) : RequestParameter where
  name := q.name
  kind := .entity
  description := (HandlerMetadata.of s.vocabulary d ancestors).description q.name
  declaration := some id
  type := some (context.resolve q.declaredType)

/-- A descriptor before any request parameter is added. -/
def outline (s : Synthesizer) (context : TypeContext) (id : DeclId) (d : Declaration)
    (ancestors : List Declaration) (entity : Option RequestParameter) : Descriptor :=
  let r := (returnType s.vocabulary context d ancestors).representation s.model s.vocabulary.types
  { handler := id
    name := d.name
    entity
    statusCodes := s.statusCodes d ancestors
    warnings := (Metadata.warnings s.vocabulary d ancestors).ordered
    responseHeaders := (Metadata.responseHeaders s.vocabulary d ancestors).merge
    representation := r.1
    diagnostics := r.2 }

variable {s : Synthesizer} {context : TypeContext} {id : DeclId} {d : Declaration}
  {ancestors : List Declaration} {parameters : List (DeclId × Declaration)}

theorem kind_ne_entity_of_mem_candidates {p : RequestParameter}
    (h : p ∈ s.candidates context d ancestors parameters) : p.kind ≠ .entity := by
  rcases List.mem_append.mp h with h | h
  · obtain ⟨_, -, hp⟩ := List.mem_flatMap.mp h
    exact Classification.kind_ne_entity_of_mem_classify hp
  · obtain ⟨_, -, rfl⟩ := List.mem_map.mp h
    simp

theorem descriptor_eq :
    s.descriptor context id d ancestors parameters =
      (s.outline context id d ancestors
        ((parameters.find? fun e => takesBody s.vocabulary.web e.2).map fun e =>
          s.entityOf context d ancestors e.1 e.2)).addParameters
        (s.candidates context d ancestors parameters) :=
  rfl

theorem keyed_descriptor : (s.descriptor context id d ancestors parameters).Keyed := by
  rw [descriptor_eq]
  exact Descriptor.keyed_addParameters rfl _

/-- The request parameters are the candidates that are the first of their identity. -/
theorem keyed_of_describe {handler : Handler} {r : Descriptor} (h : s.describe handler = .ok r) :
    r.Keyed := by
  obtain ⟨d, ancestors, parameters, -, rfl⟩ := describe_eq_ok_iff.mp h
  exact keyed_descriptor

theorem mem_requestParameters_descriptor_iff {p : RequestParameter} :
    p ∈ (s.descriptor context id d ancestors parameters).requestParameters ↔
      (s.candidates context d ancestors parameters).find? (fun q => q.identity = p.identity) =
        some p := by
  rw [Descriptor.mem_requestParameters_iff keyed_descriptor, descriptor_eq,
    Descriptor.getElem?_addParameters]
  simp [outline]

/-- The entity is made of the first parameter that takes the body. -/
theorem entity_descriptor_eq_some_iff {e : RequestParameter} :
    (s.descriptor context id d ancestors parameters).entity = some e ↔
      ∃ before i q after, parameters = before ++ (i, q) :: after ∧
        (∀ b ∈ before, takesBody s.vocabulary.web b.2 = false) ∧
        takesBody s.vocabulary.web q = true ∧ e = s.entityOf context d ancestors i q := by
  rw [descriptor_eq, Descriptor.addParameters_eq]
  simp only [outline, Option.map_eq_some_iff, List.find?_eq_some_iff_append, Prod.exists]
  constructor
  · rintro ⟨i, q, ⟨hq, before, after, hps, hb⟩, rfl⟩
    exact ⟨before, i, q, after, hps, fun b hm => by simpa using hb b hm, hq, rfl⟩
  · rintro ⟨before, i, q, after, hps, hb, hq, rfl⟩
    exact ⟨i, q, ⟨hq, before, after, hps, fun b hm => by simpa using hb b hm⟩, rfl⟩

/-- Parameters that take the body make no difference behind the first one. -/
theorem descriptor_drop_bodies {before after : List (DeclId × Declaration)} {i : DeclId}
    {q : Declaration} (hq : takesBody s.vocabulary.web q = true) :
    s.descriptor context id d ancestors (before ++ (i, q) :: after) =
      s.descriptor context id d ancestors
        (before ++ (i, q) :: after.filter fun e => !takesBody s.vocabulary.web e.2) := by
  rw [descriptor_eq, descriptor_eq]
  congr 1
  · simp only [List.find?_append, List.find?_cons, hq]
  · simp only [candidates, List.filter_append, List.filter_cons, hq, List.filter_filter,
      Bool.and_self]

end Synthesizer

/-- **The request parameters and the entity of a description.** The request parameters stand in
strict order, they are the candidates that are the first of their identity, and none is an entity. The
entity is made of the first parameter of the method that takes the body; further ones might as well not
be there. -/
theorem describe_parameters {s : Synthesizer} {handler : Handler} {r : Descriptor}
    (h : s.describe handler = .ok r) :
    ∃ d ancestors parameters, handler.Resolves s.model d ancestors parameters ∧
      r.requestParameters.Pairwise RequestParameter.Precedes ∧
      (∀ p, p ∈ r.requestParameters ↔
        (s.candidates handler.context d ancestors parameters).find?
          (fun q => q.identity = p.identity) = some p) ∧
      (∀ p ∈ r.requestParameters, p.kind ≠ .entity) ∧
      (r.entity.isSome ↔
        ∃ e ∈ parameters, Synthesizer.takesBody s.vocabulary.web e.2 = true) ∧
      (∀ before i q after, parameters = before ++ (i, q) :: after →
        (∀ b ∈ before, Synthesizer.takesBody s.vocabulary.web b.2 = false) →
        Synthesizer.takesBody s.vocabulary.web q = true →
        r.entity = some (s.entityOf handler.context d ancestors i q) ∧
        r = s.descriptor handler.context handler.method d ancestors
          (before ++ (i, q) ::
            after.filter fun e => !Synthesizer.takesBody s.vocabulary.web e.2)) := by
  obtain ⟨d, ancestors, parameters, hres, rfl⟩ := Synthesizer.describe_eq_ok_iff.mp h
  refine ⟨d, ancestors, parameters, hres, Descriptor.pairwise_precedes Synthesizer.keyed_descriptor,
    fun p => Synthesizer.mem_requestParameters_descriptor_iff, fun p hp => ?_, ?_, ?_⟩
  · have hf := Synthesizer.mem_requestParameters_descriptor_iff.mp hp
    exact Synthesizer.kind_ne_entity_of_mem_candidates (List.mem_of_find?_eq_some hf)
  · rw [Synthesizer.descriptor_eq, Descriptor.addParameters_eq]
    simp [Synthesizer.outline]
  · rintro before i q after rfl hb hq
    exact ⟨Synthesizer.entity_descriptor_eq_some_iff.mpr ⟨before, i, q, after, rfl, hb, hq, rfl⟩,
      Synthesizer.descriptor_drop_bodies hq⟩

/-- A method with a plain parameter, two parameters that take the body, and two documented headers of
one name. -/
def uploadDeclarations : List Declaration :=
  [{ name := "upload"
     declaredType := .void
     docs := .push (.push ∅ "RequestHeader" "X-Trace first") "RequestHeader" "X-Trace second"
     kind := .method [1, 2, 3] },
   .ofParameter "size" (.primitive "long"),
   (Declaration.ofParameter "widget" (.named "Widget")).withTag ({} : WebTags).requestBody ∅,
   (Declaration.ofParameter "other" (.named "Widget")).withTag ({} : WebTags).requestBody ∅]

/-- The synthesizer of the declarations of an upload. -/
def uploadSynthesizer : Synthesizer where
  model :=
    { decls := uploadDeclarations
      consistent := fault?_eq_none_iff.mp (by decide +kernel) }
  vocabulary := {}
  filter := ⟨.field, {}⟩

theorem upload_parameters : ∃ r, uploadSynthesizer.describe { method := 0 } = .ok r ∧
    r.requestParameters.Pairwise RequestParameter.Precedes ∧
    r.requestParameters.map (fun p => (p.kind, p.name, p.description)) =
      [(.header, "X-Trace", "first"), (.query, "size", "")] ∧
    r.entity.map (·.name) = some "widget" := by
  have hr : (uploadSynthesizer.describe { method := 0 }).toOption.map (fun r =>
      (r.requestParameters.map fun p => (p.kind, p.name, p.description), r.entity.map (·.name))) =
        some ([(.header, "X-Trace", "first"), (.query, "size", "")], some "widget") := by
    decide +kernel
  cases h : uploadSynthesizer.describe { method := 0 } with
  | error e => simp [h, Except.toOption] at hr
  | ok r =>
    obtain ⟨d, ancestors, parameters, -, hpairwise, -⟩ := describe_parameters h
    rw [h] at hr
    obtain ⟨hparameters, hentity⟩ := Prod.mk.inj (Option.some.inj hr)
    exact ⟨r, rfl, hpairwise, hparameters, hentity⟩

end ApiDescription
