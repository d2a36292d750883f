import ApiDescription.Proofs.Translation.Metadata

/-!
# Descriptions of translated handlers

A description is put together from the metadata of a handler and from its classified parameters. Both
are the same for a translated handler, but for the positions of the declarations behind the parameters.
So is the description, and a handler that cannot be described fails with the same error: the positions
that an error names are behind the last declaration, where no position is renumbered.

Results:
* `classify_position`: what a parameter is classified as.
* `candidates_map`, `outline_map`: what a descriptor is made of.
* `Embeds.resolves`, `Embeds.fault`: what a handler refers to, and what is wrong with it.
* `Embeds.describe_renumber`, `Maps.describe_renumber`: the description of a handler, or the error that
  there is none.
-/

namespace ApiDescription

namespace Translation

variable {v : Vocabulary} {τ : Translation v}

/-! ## Classified parameters -/

theorem binding?_decl (τ : Translation v) (d : Declaration) :
    Classification.binding? v.web (τ.decl d) = Classification.binding? v.web d := by
  have htags : ∀ b ∈ Classification.bindings v.web, b.1 ∈ v.tagNames := by
    simp [Classification.bindings, Vocabulary.tagNames]
  rw [Classification.binding?, Classification.binding?, ← List.head?_filterMap,
    ← List.head?_filterMap]
  refine congrArg List.head? (List.filterMap_congr fun b hb => ?_)
  exact congrArg (Option.map _) (τ.first?_tags d (htags b hb))

theorem takesBody_decl (τ : Translation v) (d : Declaration) :
    Synthesizer.takesBody v.web (τ.decl d) = Synthesizer.takesBody v.web d :=
  τ.contains_tags d (by simp [Vocabulary.tagNames])

namespace Embeds

variable {model model' : Model} {filter : AccessorFilter} {context : TypeContext}
  {metadata : HandlerMetadata}

/-- A parameter as a whole is the same but for its position, whatever the models. -/
theorem whole_position (model model' : Model) (id : DeclId) (d : Declaration) (name : String)
    (kind : ParameterKind) :
    Classification.whole ⟨model', v, filter, context, metadata⟩ (τ.position id) (τ.decl d) name kind =
      (Classification.whole ⟨model, v, filter, context, metadata⟩ id d name kind).renumber
        τ.position := by
  rw [Classification.whole, Classification.whole, τ.name_decl, τ.declaredType_decl]
  rfl

variable (h : τ.Embeds model.decls model'.decls)
include h

theorem plainKind_decl (d : Declaration) :
    Classification.plainKind ⟨model', v, filter, context, metadata⟩ (τ.decl d) =
      Classification.plainKind ⟨model, v, filter, context, metadata⟩ d := by
  unfold Classification.plainKind
  rw [τ.declaredType_decl, τ.name_decl, h.isInstanceOfAny_eq]

variable (hb : filter.binding = v.binding)
include hb

theorem expand_position (id : DeclId) (d : Declaration) :
    Classification.expand ⟨model', v, filter, context, metadata⟩ (τ.position id) (τ.decl d) =
      (Classification.expand ⟨model, v, filter, context, metadata⟩ id d).map
        (·.renumber τ.position) := by
  have hfind : ((context.resolve d.declaredType).qualifiedName?.bind model'.findType?) =
      ((context.resolve d.declaredType).qualifiedName?.bind model.findType?).map τ.entry := by
    rw [Option.map_bind]
    exact congrArg _ (funext h.findType?_eq)
  unfold Classification.expand
  simp only [τ.declaredType_decl, hfind]
  cases (context.resolve d.declaredType).qualifiedName?.bind model.findType? with
  | none =>
    simp only [Option.map_none, List.map_cons, List.map_nil, τ.name_decl]
    rw [whole_position]
  | some e =>
    have hkeep : (model.members e.1).filter ((fun e => filter.accepts model' e.2) ∘ τ.entry) =
        (model.members e.1).filter fun e => filter.accepts model e.2 :=
      List.filter_congr fun e he => h.accepts_decl hb (Model.get?_of_mem_members he)
    simp only [Option.map_some, entry, h.members_position]
    rw [List.filter_map, hkeep, List.map_map, List.map_map]
    refine List.map_congr_left fun m _ => ?_
    simp [entry, RequestParameter.renumber, τ.name_decl, τ.declaredType_decl]

/-- What a parameter is classified as is the same but for positions. -/
theorem classify_position (id : DeclId) (d : Declaration) :
    Classification.classify ⟨model', v, filter, context, metadata⟩ (τ.position id) (τ.decl d) =
      (Classification.classify ⟨model, v, filter, context, metadata⟩ id d).map
        (·.renumber τ.position) := by
  unfold Classification.classify
  simp only [binding?_decl, τ.name_decl, h.plainKind_decl, whole_position model,
    h.expand_position hb]
  rw [τ.contains_tags d (by simp [Vocabulary.tagNames])]
  split
  · rfl
  · split <;> rfl

/-! ## Descriptors -/

/-- The candidates are the same but for positions. -/
theorem candidates_map (own : Declaration) (ancestors : List Declaration)
    (parameters : List (DeclId × Declaration)) :
    Synthesizer.candidates ⟨model', v, filter⟩ context (τ.decl own) (ancestors.map τ.decl)
        (parameters.map τ.entry) =
      (Synthesizer.candidates ⟨model, v, filter⟩ context own ancestors parameters).map
        (·.renumber τ.position) := by
  have hplain : (fun e => !Synthesizer.takesBody v.web e.2) ∘ τ.entry =
      fun e => !Synthesizer.takesBody v.web e.2 :=
    funext fun e => congrArg Bool.not (takesBody_decl τ e.2)
  have hheaders : Metadata.requestHeaders v (τ.decl own) (ancestors.map τ.decl) =
      Metadata.requestHeaders v own ancestors :=
    τ.headers_map own ancestors (by simp [Vocabulary.tagNames]) (by simp [DocTagNames.all])
  unfold Synthesizer.candidates Synthesizer.classification
  simp only [List.map_append, List.filter_map, hplain, List.flatMap_map, List.map_flatMap,
    τ.handlerMetadata_map, hheaders, List.map_map]
  refine congrArg₂ (· ++ ·) (List.flatMap_congr fun e _ => ?_) rfl
  exact h.classify_position hb e.1 e.2

omit h hb in
theorem entityOf_position (own : Declaration) (ancestors : List Declaration) (id : DeclId)
    (d : Declaration) :
    Synthesizer.entityOf ⟨model', v, filter⟩ context (τ.decl own) (ancestors.map τ.decl)
        (τ.position id) (τ.decl d) =
      (Synthesizer.entityOf ⟨model, v, filter⟩ context own ancestors id d).renumber τ.position := by
  unfold Synthesizer.entityOf
  simp only [τ.handlerMetadata_map, τ.name_decl, τ.declaredType_decl]
  rfl

omit hb in
/-- Everything but the request parameters is the same but for positions. -/
theorem outline_map (id : DeclId) (own : Declaration) (ancestors : List Declaration)
    (entity : Option RequestParameter) :
    Synthesizer.outline ⟨model', v, filter⟩ context (τ.position id) (τ.decl own)
        (ancestors.map τ.decl) (entity.map (·.renumber τ.position)) =
      (Synthesizer.outline ⟨model, v, filter⟩ context id own ancestors entity).renumber
        τ.position := by
  have hcodes : Synthesizer.statusCodes ⟨model', v, filter⟩ (τ.decl own) (ancestors.map τ.decl) =
      Synthesizer.statusCodes ⟨model, v, filter⟩ own ancestors := by
    unfold Synthesizer.statusCodes
    rw [h.statusCodes_map, τ.first?_tags own (by simp [Vocabulary.tagNames])]
  have hheaders : Metadata.responseHeaders v (τ.decl own) (ancestors.map τ.decl) =
      Metadata.responseHeaders v own ancestors :=
    τ.headers_map own ancestors (by simp [Vocabulary.tagNames]) (by simp [DocTagNames.all])
  unfold Synthesizer.outline
  simp only [hcodes, hheaders, τ.warnings_map, τ.returnType_map, h.representation_eq, τ.name_decl]
  rfl

theorem descriptor_map (id : DeclId) (own : Declaration) (ancestors : List Declaration)
    (parameters : List (DeclId × Declaration)) :
    Synthesizer.descriptor ⟨model', v, filter⟩ context (τ.position id) (τ.decl own)
        (ancestors.map τ.decl) (parameters.map τ.entry) =
      (Synthesizer.descriptor ⟨model, v, filter⟩ context id own ancestors parameters).renumber
        τ.position := by
  have hbody : (fun e => Synthesizer.takesBody v.web e.2) ∘ τ.entry =
      fun e => Synthesizer.takesBody v.web e.2 :=
    funext fun e => takesBody_decl τ e.2
  rw [Synthesizer.descriptor_eq, Synthesizer.descriptor_eq, Descriptor.renumber_addParameters,
    h.candidates_map hb, ← h.outline_map, List.find?_map, hbody, Option.map_map, Option.map_map]
  refine congrArg (fun entity => Descriptor.addParameters
    (Synthesizer.outline _ _ _ _ _ (Option.map entity _)) _) (funext fun e => ?_)
  exact entityOf_position own ancestors e.1 e.2

end Embeds

/-! ## Handlers -/

namespace Embeds

variable {model model' : Model} (h : τ.Embeds model.decls model'.decls) {handler : Handler}
include h

theorem lt_size {id : DeclId} (hid : id < model.size) : τ.position id < model'.size := by
  obtain ⟨d, hd⟩ := Model.exists_get?_iff.mpr hid
  exact Model.exists_get?_iff.mp ⟨_, h.get?_position hd⟩

/-- A translated handler refers to the translation of what the handler refers to. -/
theorem resolves {d : Declaration} {ancestors : List Declaration}
    {parameters : List (DeclId × Declaration)}
    (hres : handler.Resolves model d ancestors parameters) :
    (handler.renumber τ.position).Resolves model' (τ.decl d) (ancestors.map τ.decl)
      (parameters.map τ.entry) where
  method := h.get?_position hres.method
  kind := by
    rw [τ.kind_decl, hres.kind, List.map_map]
    simp [Declaration.Kind.renumber, entry, Function.comp_def]
  ancestors := by
    have hget : ∀ id ∈ handler.ancestors, model'.get? (τ.position id) = (model.get? id).map τ.decl := by
      intro id hid
      have hmem : model.get? id ∈ ancestors.map some := hres.ancestors ▸ List.mem_map_of_mem hid
      obtain ⟨a, -, ha⟩ := List.mem_map.mp hmem
      rw [h.get?_position ha.symm, ← ha]
      rfl
    calc (handler.ancestors.map τ.position).map model'.get?
      _ = (handler.ancestors.map model.get?).map (Option.map τ.decl) := by
        rw [List.map_map, List.map_map]
        exact List.map_congr_left hget
      _ = (ancestors.map τ.decl).map some := by
        rw [hres.ancestors, List.map_map, List.map_map]
        rfl
  parameters e' he' := by
    obtain ⟨e, he, rfl⟩ := List.mem_map.mp he'
    exact h.get?_position (hres.parameters e he)

/-- A translated handler has the fault of the handler, as long as positions that are not in the model
stay as they are and out of the model. -/
theorem fault (hout : ∀ id ∈ handler.method :: handler.ancestors, model.size ≤ id →
      τ.position id = id ∧ model'.size ≤ id) {e : SynthesisError} (hf : handler.Fault model e) :
    (handler.renumber τ.position).Fault model' e := by
  cases hf with
  | unknownMethod hm =>
    -- the message shows the position
    obtain ⟨hfix, hle⟩ := hout _ List.mem_cons_self hm
    have hf : (handler.renumber τ.position).Fault model' _ :=
      .unknownMethod (le_of_le_of_eq hle hfix.symm)
    rwa [show (handler.renumber τ.position).method = handler.method from hfix] at hf
  | @notMethod d hm hk =>
    rw [← τ.label_decl]
    refine .notMethod (h.get?_position hm) fun ids hids => ?_
    rw [τ.kind_decl] at hids
    cases hd : d.kind with
    | method ids => exact hk ids hd
    | _ => simp [hd, Declaration.Kind.renumber] at hids
  | @unknownAncestor d ids before after id hm hk hs hbefore hid =>
    have hmem : id ∈ handler.method :: handler.ancestors := by simp [hs]
    obtain ⟨hfix, hle⟩ := hout id hmem hid
    rw [← τ.label_decl, ← hfix]
    have hk' : (τ.decl d).kind = .method (ids.map τ.position) := by
      rw [τ.kind_decl, hk]
      rfl
    have hs' : (handler.renumber τ.position).ancestors =
        before.map τ.position ++ τ.position id :: after.map τ.position := by
      rw [Handler.renumber, hs, List.map_append, List.map_cons]
    refine .unknownAncestor (h.get?_position hm) hk' hs' (fun a ha => ?_) (le_of_le_of_eq hle hfix.symm)
    obtain ⟨b, hb, rfl⟩ := List.mem_map.mp ha
    exact h.lt_size (hbefore b hb)

/-- **The description of a translated handler, or the error that there is none, is that of the handler
but for positions.** -/
theorem describe_renumber {filter : AccessorFilter} (hb : filter.binding = v.binding)
    (handler : Handler) (hout : ∀ id ∈ handler.method :: handler.ancestors, model.size ≤ id →
      τ.position id = id ∧ model'.size ≤ id) :
    Synthesizer.describe ⟨model', v, filter⟩ (handler.renumber τ.position) =
      (Synthesizer.describe ⟨model, v, filter⟩ handler).map (·.renumber τ.position) := by
  cases hd : Synthesizer.describe ⟨model, v, filter⟩ handler with
  | ok r =>
    obtain ⟨d, ancestors, parameters, hres, rfl⟩ := Synthesizer.describe_eq_ok_iff.mp hd
    exact Synthesizer.describe_eq_ok_iff.mpr
      ⟨_, _, _, h.resolves hres, (h.descriptor_map hb _ _ _ _).symm⟩
  | error e =>
    exact Synthesizer.describe_eq_error_iff.mpr
      (h.fault hout (Synthesizer.describe_eq_error_iff.mp hd))

end Embeds

/-- The description of any handler is that of the original handler but for positions where nothing but
the translated declarations is there. -/
theorem Maps.describe_renumber {model model' : Model} (h : τ.Maps model.decls model'.decls)
    {filter : AccessorFilter} (hb : filter.binding = v.binding) (handler : Handler) :
    Synthesizer.describe ⟨model', v, filter⟩ (handler.renumber τ.position) =
      (Synthesizer.describe ⟨model, v, filter⟩ handler).map (·.renumber τ.position) := by
  refine h.embeds.describe_renumber hb handler fun id _ hid => ?_
  have hfix : τ.position id = id := h.fixed id hid
  refine ⟨hfix, Nat.not_lt.mp fun hlt => ?_⟩
  rw [← hfix] at hlt
  exact Nat.not_lt.mpr hid ((h.lt_length_iff id).mp hlt)

end Translation

end ApiDescription
