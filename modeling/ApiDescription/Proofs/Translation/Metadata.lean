import ApiDescription.Proofs.Translation.Models

/-!
# Metadata of translated handlers

What is read off a handler and its ancestors goes by the tags and documentation tags of the vocabulary
alone, and by the types that the model has under a name. So a translated handler has the same metadata
and the same return type.

Results:
* `collect_map`: contributions of translated declarations, by readings that do not see the translation.
* `statusCodes_map`, `warnings_map`, `headers_map`: the metadata that is documented about a handler.
* `handlerMetadata_map`: what the classification of parameters takes from a handler.
* `returnType_map`, `representation_eq`: what a handler returns, and what that stands for.
-/

namespace ApiDescription

/-- Readings that do not see a change of declarations collect the same from the changed ones. -/
theorem Contributions.collect_map {α δ : Type} {g : δ → δ}
    {structured structured' documented : δ → List α} (hs : ∀ d, structured' (g d) = structured d)
    (hd : ∀ d, documented (g d) = documented d) (own : δ) (ancestors : List δ) :
    collect (g own) (ancestors.map g) structured' documented =
      collect own ancestors structured documented := by
  simp only [collect, List.flatMap_map, hs, hd]

namespace Translation

variable {v : Vocabulary} (τ : Translation v)

/-! ## Tags and documentation lines -/

section Channels

variable (d : Declaration) {name : String}

theorem nestedTags_decl (h : name ∈ v.tagNames) :
    Metadata.nestedTags (τ.decl d) name = Metadata.nestedTags d name := by
  rw [Metadata.nestedTags, Metadata.nestedTags, τ.get_tags d h]

theorem documentedCodes_decl (h : name ∈ v.docs.all) :
    Metadata.documentedCodes (τ.decl d) name = Metadata.documentedCodes d name := by
  rw [Metadata.documentedCodes, Metadata.documentedCodes, DocLine.coded, DocLine.coded,
    τ.get?_docs d h]

theorem named_decl (h : name ∈ v.docs.all) :
    DocLine.named (τ.decl d).docs name = DocLine.named d.docs name := by
  rw [DocLine.named, DocLine.named, τ.get?_docs d h]

end Channels

variable (own : Declaration) (ancestors : List Declaration)

theorem warnings_map :
    Metadata.warnings v (τ.decl own) (ancestors.map τ.decl) = Metadata.warnings v own ancestors := by
  refine Contributions.collect_map (fun d => ?_) (fun d => ?_) own ancestors
  · rw [τ.nestedTags_decl d (by simp [Vocabulary.tagNames])]
  · exact τ.documentedCodes_decl d (by simp [DocTagNames.all])

theorem headers_map {tagName docName : String} (ht : tagName ∈ v.tagNames) (hd : docName ∈ v.docs.all) :
    Metadata.headers tagName docName (τ.decl own) (ancestors.map τ.decl) =
      Metadata.headers tagName docName own ancestors := by
  refine Contributions.collect_map (fun d => ?_) (fun d => ?_) own ancestors
  · rw [τ.get_tags d ht]
  · exact τ.named_decl d hd

/-- The classification of parameters takes the same from a translated handler. -/
theorem handlerMetadata_map :
    HandlerMetadata.of v (τ.decl own) (ancestors.map τ.decl) = HandlerMetadata.of v own ancestors := by
  have htemplates : ∀ d, Route.templatesOf v.web (τ.decl d) = Route.templatesOf v.web d := fun d => by
    rw [Route.templatesOf, Route.templatesOf, τ.get_tags d (by simp [Vocabulary.tagNames])]
  have hroute : Route.of v.web (τ.decl own) (ancestors.map τ.decl) = Route.of v.web own ancestors := by
    rw [Route.of, Route.of, ← List.map_cons, List.flatMap_map]
    simp only [htemplates]
  have hdocs : HandlerMetadata.parameterDocs v.docs (τ.decl own) =
      HandlerMetadata.parameterDocs v.docs own := by
    rw [HandlerMetadata.parameterDocs, HandlerMetadata.parameterDocs,
      τ.named_decl own (by simp [DocTagNames.all]), τ.named_decl own (by simp [DocTagNames.all])]
  rw [HandlerMetadata.of, HandlerMetadata.of, hroute, hdocs]

theorem returnType_map (context : TypeContext) :
    Synthesizer.returnType v context (τ.decl own) (ancestors.map τ.decl) =
      Synthesizer.returnType v context own ancestors := by
  have hbody : ∀ d, (τ.decl d).tags.contains v.web.responseBody =
      d.tags.contains v.web.responseBody :=
    fun d => τ.contains_tags d (by simp [Vocabulary.tagNames])
  have hcontroller : ∀ d, (τ.decl d).tags.contains v.web.restController =
      d.tags.contains v.web.restController :=
    fun d => τ.contains_tags d (by simp [Vocabulary.tagNames])
  have hreturns : Synthesizer.returnsBody v.web (τ.decl own) (ancestors.map τ.decl) =
      Synthesizer.returnsBody v.web own ancestors := by
    simp only [Synthesizer.returnsBody, List.any_map, Function.comp_def, hbody, hcontroller]
  rw [Synthesizer.returnType, Synthesizer.returnType, τ.label_decl, τ.declaredType_decl,
    τ.first?_tags own (by simp [Vocabulary.tagNames]), hreturns, DocTags.text?, DocTags.text?,
    τ.get?_docs own (by simp [DocTagNames.all]), τ.get?_docs own (by simp [DocTagNames.all])]

/-! ## Types of the model -/

namespace Embeds

variable {τ} {model model' : Model} (h : τ.Embeds model.decls model'.decls)
include h

theorem fullCode?_eq (types : WellKnownTypes) :
    Metadata.fullCode? model' types = Metadata.fullCode? model types := by
  have hredeclared : Metadata.redeclared model' = Metadata.redeclared model := by
    funext type
    unfold Metadata.redeclared
    split
    · rw [h.declaredType_findType?]
    · rfl
  have htype : Metadata.codeType? model' types = Metadata.codeType? model types := by
    funext tag
    rw [Metadata.codeType?, Metadata.codeType?, hredeclared]
  funext tag
  rw [Metadata.fullCode?, Metadata.fullCode?, htype]

theorem statusCodes_map (own : Declaration) (ancestors : List Declaration) :
    Metadata.statusCodes v model' (τ.decl own) (ancestors.map τ.decl) =
      Metadata.statusCodes v model own ancestors := by
  refine Contributions.collect_map (fun d => ?_) (fun d => ?_) own ancestors
  · rw [τ.nestedTags_decl d (by simp [Vocabulary.tagNames]), h.fullCode?_eq]
  · exact τ.documentedCodes_decl d (by simp [DocTagNames.all])

theorem hintOfTag_eq (types : WellKnownTypes) (tag : Tag) :
    ReturnType.Hint.ofTag model' types tag = ReturnType.Hint.ofTag model types tag := by
  unfold ReturnType.Hint.ofTag
  cases tag.str? "qualifiedName" with
  | none => rfl
  | some name =>
    by_cases hn : name = ""
    · subst hn
      rfl
    · simp only [h.findType?_eq]
      cases model.findType? name with
      | none => rfl
      | some e => simp only [Option.map_some, entry, τ.declaredType_decl]

/-- What a return type stands for is the same. -/
theorem representation_eq (types : WellKnownTypes) (r : ReturnType) :
    r.representation model' types = r.representation model types := by
  have hpeel : ReturnType.peel model' = ReturnType.peel model := by
    funext wrappers type
    rw [ReturnType.peel, ReturnType.peel, h.isInstanceOfAny_eq]
  have hwrapped : ReturnType.wrappedType? model' = ReturnType.wrappedType? model := by
    funext wrapped
    unfold ReturnType.wrappedType?
    simp only [h.declaredType_findType?]
  unfold ReturnType.representation ReturnType.hintInForce ReturnType.unwrapped
  rw [funext (h.hintOfTag_eq types), hpeel, hwrapped]

end Embeds

end Translation

end ApiDescription
