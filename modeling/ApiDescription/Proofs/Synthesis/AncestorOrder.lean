import ApiDescription.Proofs.NameMaps
import ApiDescription.Proofs.Route.Scanning
import ApiDescription.Proofs.Synthesis.Outcome
import ApiDescription.Proofs.Synthesis.Parameters
import Mathlib.Data.List.Perm.Basic

/-!
# The order of the ancestors

What a description is made of is collected from the ancestors of a method one by one. Their order decides
which of several headers of one name is described, and in which order codes are listed. It decides
nothing else: which templates make up the route and whether the method answers with a body depend on the
set of the ancestors alone, and a documented request header never replaces a parameter of the method.

Results:
* `Handler.exists_resolves_of_perm`: ancestors in another order resolve to the same declarations in that
  order.
* `Contributions.ordered_perm`, `Contributions.documentedFirst_perm`: each channel is rearranged.
* `classification_of_perm`, `returnType_of_perm`: what the order makes no difference to.
* `Descriptor.Reordered`: two descriptors differ in order and precedence alone.
* `describe_reorder_ancestors`: the descriptions of a handler with its ancestors in two orders.
-/

namespace ApiDescription

/-! ## Handlers -/

namespace Handler

variable {model : Model} {handler : Handler} {d : Declaration} {ids : List DeclId}
  {ancestors : List Declaration} {parameters : List (DeclId × Declaration)}

theorem exists_resolves_of_perm (h : ids.Perm handler.ancestors)
    (hres : handler.Resolves model d ancestors parameters) :
    ∃ ancestors', ancestors'.Perm ancestors ∧
      Resolves model { handler with ancestors := ids } d ancestors' parameters := by
  have hfound : ∀ {is : List DeclId} {as : List Declaration},
      is.map model.get? = as.map some ↔ List.Forall₂ (fun i a => model.get? i = some a) is as := by
    intro is as
    rw [← List.forall₂_eq_eq_eq, List.forall₂_map_left_iff, List.forall₂_map_right_iff]
  obtain ⟨ancestors', hfound', hperm⟩ := List.perm_comp_forall₂ h (hfound.mp hres.ancestors)
  exact ⟨ancestors', hperm, ⟨hres.method, hres.kind, hfound.mpr hfound', hres.parameters⟩⟩

/-- Where all ancestors are in the model, a fault has nothing to do with them. -/
theorem Fault.of_ancestors_lt {e : SynthesisError} (hin : ∀ a ∈ handler.ancestors, a < model.size)
    (hf : handler.Fault model e) (ids : List DeclId) :
    Fault model { handler with ancestors := ids } e := by
  cases hf with
  | unknownMethod h => exact .unknownMethod h
  | notMethod h hk => exact .notMethod h hk
  | @unknownAncestor _ _ before after id h hk hs hb hid =>
    have hlt : id < model.size := hin id (by rw [hs]; simp)
    exact absurd hlt (Nat.not_lt.mpr hid)

end Handler

/-! ## Metadata -/

namespace Contributions

variable {α δ : Type} {c c' : Contributions α}

/-- Contributions whose inherited channels are rearranged. -/
structure Rearranged (c c' : Contributions α) : Prop where
  ownStructured : c'.ownStructured = c.ownStructured
  inheritedStructured : c'.inheritedStructured.Perm c.inheritedStructured
  ownDocumented : c'.ownDocumented = c.ownDocumented
  inheritedDocumented : c'.inheritedDocumented.Perm c.inheritedDocumented

theorem collect_rearranged {ancestors ancestors' : List δ} (h : ancestors'.Perm ancestors) (own : δ)
    (structured documented : δ → List α) :
    (collect own ancestors structured documented).Rearranged
      (collect own ancestors' structured documented) where
  ownStructured := rfl
  inheritedStructured := h.flatMap_right structured
  ownDocumented := rfl
  inheritedDocumented := h.flatMap_right documented

theorem Rearranged.ordered_perm (h : c.Rearranged c') : c'.ordered.Perm c.ordered := by
  unfold ordered
  rw [h.ownStructured, h.ownDocumented]
  exact ((h.inheritedStructured.append_left _).append_right _).append h.inheritedDocumented

theorem Rearranged.documentedFirst_perm (h : c.Rearranged c') :
    c'.documentedFirst.Perm c.documentedFirst := by
  unfold documentedFirst
  rw [h.ownStructured, h.ownDocumented]
  exact ((h.inheritedDocumented.append_left _).append_right _).append h.inheritedStructured

/-- The names of merged contributions are a set. -/
theorem Rearranged.mem_merge_iff {c c' : Contributions (String × α)} (h : c.Rearranged c')
    {name : String} : name ∈ c'.merge ↔ name ∈ c.merge := by
  unfold merge
  simp only [NameMap.mem_ofPairs_iff, h.ordered_perm.mem_iff]

end Contributions

/-! ## Descriptions -/

/-- Two descriptions that differ in order and precedence alone: which of the documented headers of a name
is described, and in which order codes are listed. -/
structure Descriptor.Reordered (r r' : Descriptor) : Prop where
  handler : r'.handler = r.handler
  name : r'.name = r.name
  entity : r'.entity = r.entity
  representation : r'.representation = r.representation
  diagnostics : r'.diagnostics = r.diagnostics
  identities : ∀ i, (∃ p ∈ r'.requestParameters, p.identity = i) ↔
    ∃ p ∈ r.requestParameters, p.identity = i
  /-- Parameters of the method are the same in all that is said about them. -/
  declared : ∀ p, p.declaration ≠ none → (p ∈ r'.requestParameters ↔ p ∈ r.requestParameters)
  statusCodes : r'.statusCodes.Perm r.statusCodes
  warnings : r'.warnings.Perm r.warnings
  headerNames : ∀ name, name ∈ r'.responseHeaders ↔ name ∈ r.responseHeaders

namespace Synthesizer

variable {s : Synthesizer} {context : TypeContext} {id : DeclId} {d : Declaration}
  {ancestors ancestors' : List Declaration} {parameters : List (DeclId × Declaration)}

theorem classification_of_perm (h : ancestors'.Perm ancestors) :
    s.classification context d ancestors' = s.classification context d ancestors := by
  unfold classification HandlerMetadata.of
  rw [Route.of_perm h]

theorem returnType_of_perm (h : ancestors'.Perm ancestors) :
    returnType s.vocabulary context d ancestors' = returnType s.vocabulary context d ancestors := by
  unfold returnType returnsBody
  rw [h.any_eq]

theorem statusCodes_perm (h : ancestors'.Perm ancestors) :
    (s.statusCodes d ancestors').Perm (s.statusCodes d ancestors) := by
  have hcodes : (Metadata.statusCodes s.vocabulary s.model d ancestors).Rearranged
      (Metadata.statusCodes s.vocabulary s.model d ancestors') :=
    Contributions.collect_rearranged h d _ _
  -- the response status joins the channel of the method's own tags
  refine Contributions.Rearranged.ordered_perm
    ⟨?_, hcodes.inheritedStructured, hcodes.ownDocumented, hcodes.inheritedDocumented⟩
  rw [hcodes.ownStructured]

/-- What is offered as request parameter is what the parameters of the method are classified as, then the
documented headers. -/
theorem candidates_eq :
    s.candidates context d ancestors parameters =
      classified (s.classification context d ancestors) parameters ++
        explicitHeaders s.vocabulary d ancestors :=
  rfl

theorem candidates_perm (h : ancestors'.Perm ancestors) :
    (s.candidates context d ancestors' parameters).Perm
      (s.candidates context d ancestors parameters) := by
  rw [candidates_eq, candidates_eq, classification_of_perm h]
  exact ((Contributions.collect_rearranged h d _ _).documentedFirst_perm.map _).append_left _

/-- The request parameters have the identities that are offered. -/
theorem exists_identity_iff {i : ParameterIdentity} :
    (∃ p ∈ (s.descriptor context id d ancestors parameters).requestParameters, p.identity = i) ↔
      ∃ p ∈ s.candidates context d ancestors parameters, p.identity = i := by
  simp only [mem_requestParameters_descriptor_iff]
  constructor
  · rintro ⟨p, hp, rfl⟩
    exact ⟨p, List.mem_of_find?_eq_some hp, rfl⟩
  · rintro ⟨p, hp, rfl⟩
    have hsome : ((s.candidates context d ancestors parameters).find?
        fun q => q.identity = p.identity).isSome := by
      rw [List.find?_isSome]
      exact ⟨p, hp, by simp⟩
    obtain ⟨q, hq⟩ := Option.isSome_iff_exists.mp hsome
    have hid : q.identity = p.identity := by simpa using List.find?_some hq
    exact ⟨q, by rw [hid]; exact hq, hid⟩

/-- A request parameter with a declaration is one that the parameters of the method are classified as. -/
theorem mem_requestParameters_of_declared {p : RequestParameter} (hp : p.declaration ≠ none) :
    p ∈ (s.descriptor context id d ancestors parameters).requestParameters ↔
      (classified (s.classification context d ancestors) parameters).find?
        (fun q => q.identity = p.identity) = some p := by
  have hheader : (explicitHeaders s.vocabulary d ancestors).find?
      (fun q => q.identity = p.identity) ≠ some p := by
    intro hf
    obtain ⟨_, -, rfl⟩ := List.mem_map.mp (List.mem_of_find?_eq_some hf)
    exact hp rfl
  rw [mem_requestParameters_descriptor_iff, candidates_eq, List.find?_append, Option.or_eq_some_iff]
  constructor
  · rintro (hf | ⟨-, hf⟩)
    · exact hf
    · exact absurd hf hheader
  · exact .inl

/-- But for its request parameters a description is its outline. -/
theorem exists_descriptor_eq_outline (s : Synthesizer) (context : TypeContext) (id : DeclId)
    (d : Declaration) (ancestors : List Declaration) (parameters : List (DeclId × Declaration)) :
    ∃ ps, s.descriptor context id d ancestors parameters =
      { s.outline context id d ancestors
          ((parameters.find? fun e => takesBody s.vocabulary.web e.2).map fun e =>
            s.entityOf context d ancestors e.1 e.2) with parameters := ps } := by
  rw [descriptor_eq, Descriptor.addParameters_eq]
  exact ⟨_, rfl⟩

/-- A description depends on the order of the ancestors in order and precedence alone. -/
theorem descriptor_reordered (h : ancestors'.Perm ancestors) :
    (s.descriptor context id d ancestors parameters).Reordered
      (s.descriptor context id d ancestors' parameters) := by
  obtain ⟨ps, hr⟩ := exists_descriptor_eq_outline s context id d ancestors parameters
  obtain ⟨ps', hr'⟩ := exists_descriptor_eq_outline s context id d ancestors' parameters
  refine
    { handler := by rw [hr, hr']; rfl
      name := by rw [hr, hr']; rfl
      entity := by rw [hr, hr']; rfl
      representation := ?_
      diagnostics := ?_
      identities := fun i => ?_
      declared := fun p hp => ?_
      statusCodes := ?_
      warnings := ?_
      headerNames := fun name => ?_ }
  · rw [hr, hr']
    simp only [outline, returnType_of_perm h]
  · rw [hr, hr']
    simp only [outline, returnType_of_perm h]
  · rw [exists_identity_iff, exists_identity_iff]
    simp only [(candidates_perm h).mem_iff]
  · rw [mem_requestParameters_of_declared hp, mem_requestParameters_of_declared hp,
      classification_of_perm h]
  · rw [hr, hr']
    exact statusCodes_perm h
  · rw [hr, hr']
    exact (Contributions.collect_rearranged h d _ _).ordered_perm
  · rw [hr, hr']
    exact (Contributions.collect_rearranged h d _ _).mem_merge_iff

end Synthesizer

/-- **The order of the ancestors.** Let all ancestors of a handler be in the model. With its ancestors in
another order the handler fails with the same error or has a description too, and then the two
descriptions differ in order and precedence alone. -/
theorem describe_reorder_ancestors {s : Synthesizer} {handler : Handler} {ids : List DeclId}
    (h : ids.Perm handler.ancestors) (hin : ∀ a ∈ handler.ancestors, a < s.model.size) :
    (∀ e, s.describe { handler with ancestors := ids } = .error e ↔ s.describe handler = .error e) ∧
    ∀ r, s.describe handler = .ok r →
      ∃ r', s.describe { handler with ancestors := ids } = .ok r' ∧ r.Reordered r' := by
  have hin' : ∀ a ∈ ids, a < s.model.size := fun a ha => hin a (h.mem_iff.mp ha)
  constructor
  · intro e
    rw [Synthesizer.describe_eq_error_iff, Synthesizer.describe_eq_error_iff]
    constructor
    · intro hf
      exact hf.of_ancestors_lt hin' handler.ancestors
    · intro hf
      exact hf.of_ancestors_lt hin ids
  · intro r hr
    obtain ⟨d, ancestors, parameters, hres, rfl⟩ := Synthesizer.describe_eq_ok_iff.mp hr
    obtain ⟨ancestors', hperm, hres'⟩ := Handler.exists_resolves_of_perm h hres
    exact ⟨_, Synthesizer.describe_eq_ok_iff.mpr ⟨d, ancestors', parameters, hres', rfl⟩,
      Synthesizer.descriptor_reordered hperm⟩

/-- A method whose two ancestors document a code each, and the same response header in two ways. -/
def pageDeclarations : List Declaration :=
  [Declaration.ofMethod "page" .void,
   ((Declaration.ofType "shop.Orders").withDoc "HTTP" "404 no order").withDoc "ResponseHeader"
      "X-Page of orders",
   ((Declaration.ofType "shop.Base").withDoc "HTTP" "503 busy").withDoc "ResponseHeader"
      "X-Page of anything"]

/-- The synthesizer of the declarations of a page. -/
def pageSynthesizer : Synthesizer where
  model :=
    { decls := pageDeclarations
      consistent := fault?_eq_none_iff.mp (by decide +kernel) }
  vocabulary := {}
  filter := ⟨.field, {}⟩

theorem page_reordered : ∃ r r',
    pageSynthesizer.describe { method := 0, ancestors := [1, 2] } = .ok r ∧
    pageSynthesizer.describe { method := 0, ancestors := [2, 1] } = .ok r' ∧
    r.Reordered r' ∧
    r.responseHeaders.toList = [("X-Page", "of anything")] ∧
    r'.responseHeaders.toList = [("X-Page", "of orders")] := by
  have hin : ∀ a ∈ [1, 2], a < pageSynthesizer.model.size := by decide
  have hr : (pageSynthesizer.describe { method := 0, ancestors := [1, 2] }).toOption.map
      (·.responseHeaders.toList) = some [("X-Page", "of anything")] := by
    decide +kernel
  have hr' : (pageSynthesizer.describe { method := 0, ancestors := [2, 1] }).toOption.map
      (·.responseHeaders.toList) = some [("X-Page", "of orders")] := by
    decide +kernel
  obtain ⟨-, hsame⟩ := @describe_reorder_ancestors pageSynthesizer
    { method := 0, ancestors := [1, 2] } [2, 1] (List.Perm.swap 1 2 []) hin
  cases h : pageSynthesizer.describe { method := 0, ancestors := [1, 2] } with
  | error e => simp [h, Except.toOption] at hr
  | ok r =>
    obtain ⟨r', h', hreordered⟩ := hsame r h
    rw [h] at hr
    rw [h'] at hr'
    exact ⟨r, r', rfl, h', hreordered, Option.some.inj hr, Option.some.inj hr'⟩

end ApiDescription
