import ApiDescription.Proofs.NameMaps
import ApiDescription.Proofs.Translation.Renumbering
import Mathlib.Logic.Function.Basic

/-!
# Translations

A vocabulary names the tags and documentation tags that have a meaning. A `Translation` renumbers the
positions of declarations and may change anything in them that the vocabulary gives no meaning to. Two
kinds of change are of this sort: putting declarations in another order, and taking away metadata that
nobody reads. What is made of declarations under the vocabulary is then the same but for positions.
There may be further declarations that are no types: nothing refers to them.

Results:
* `TagMap.filter_names_congr`: the listing of the tags of some names depends on these tags alone.
* `get_tags`, `get?_docs`: a translation keeps the tags and documentation tags of the vocabulary.
* `filter_names`, `any_bindingTag`: it keeps the listing of the binding tags.
* `Maps.consistent_iff`: declarations are consistent iff their translation is; `Maps.embeds`: they have
  their translation among them.
-/

namespace ApiDescription

/-! ## What has a meaning -/

/-- The names of the tags of a vocabulary. -/
def Vocabulary.tagNames (v : Vocabulary) : List String :=
  [v.binding.transient, v.binding.unknownEnumValue,
    v.web.requestBody, v.web.responseBody, v.web.restController, v.web.responseStatus,
    v.web.requestMapping, v.web.requestParam, v.web.pathVariable, v.web.requestHeader,
    v.web.cookieValue, v.web.matrixVariable, v.web.requestPart, v.web.modelAttribute,
    v.metadata.typeHint, v.metadata.statusCodes, v.metadata.warnings, v.metadata.responseHeaders,
    v.metadata.requestHeaders]

/-- The names of the documentation tags of a vocabulary. -/
def DocTagNames.all (names : DocTagNames) : List String :=
  [names.returnDoc, names.returnWrapped, names.requestHeader, names.status, names.warning,
    names.responseHeader, names.param, names.rsParam]

/-- Whether a tag has a meaning: the vocabulary names it, or it belongs to the binding package. -/
def Vocabulary.readsTag (v : Vocabulary) (name : String) : Bool :=
  v.tagNames.contains name || v.binding.isBindingTag name

/-- Whether a documentation tag has a meaning. -/
def Vocabulary.readsDoc (v : Vocabulary) (name : String) : Bool :=
  v.docs.all.contains name

/-! ## The names of tags in order -/

namespace TagMap

variable {tags tags' : TagMap}

/-- The listing of the tags of some names depends on these tags alone. -/
theorem filter_names_congr {p : String → Bool}
    (h : ∀ name, p name = true → tags'.get name = tags.get name) :
    tags'.names.filter p = tags.names.filter p := by
  refine @eq_of_mem_iff String id _ _ (tags'.pairwise_names.filter p) (tags.pairwise_names.filter p)
    fun name => ?_
  simp only [List.mem_filter, mem_names, contains]
  refine and_congr_left fun hp => ?_
  rw [h name hp]

end TagMap

/-! ## Translations of declarations -/

/-- A renumbering of positions with a change of declarations that a vocabulary sees nothing of but the
renumbering. -/
structure Translation (v : Vocabulary) where
  position : DeclId → DeclId
  bijective : Function.Bijective position
  decl : Declaration → Declaration
  name_decl : ∀ d, (decl d).name = d.name
  visibility_decl : ∀ d, (decl d).visibility = d.visibility
  modifiers_decl : ∀ d, (decl d).modifiers = d.modifiers
  declaredType_decl : ∀ d, (decl d).declaredType = d.declaredType
  kind_decl : ∀ d, (decl d).kind = d.kind.renumber position
  tags_decl : ∀ d name, v.readsTag name = true → (decl d).tags.get name = d.tags.get name
  docs_decl : ∀ d name, v.readsDoc name = true → (decl d).docs.get? name = d.docs.get? name

/-- Declarations as they are, as a translation for any vocabulary. -/
def Translation.identity (v : Vocabulary) : Translation v where
  position := id
  bijective := Function.bijective_id
  decl := id
  name_decl _ := rfl
  visibility_decl _ := rfl
  modifiers_decl _ := rfl
  declaredType_decl _ := rfl
  kind_decl d := d.kind_eq_renumber_id
  tags_decl _ _ _ := rfl
  docs_decl _ _ _ := rfl

namespace Translation

variable {v : Vocabulary} (τ : Translation v) (d : Declaration) {name : String}

/-- The translation of a declaration with its position. -/
def entry (e : DeclId × Declaration) : DeclId × Declaration :=
  (τ.position e.1, τ.decl e.2)

theorem get_tags (h : name ∈ v.tagNames) : (τ.decl d).tags.get name = d.tags.get name :=
  τ.tags_decl d name (by simp [Vocabulary.readsTag, h])

theorem contains_tags (h : name ∈ v.tagNames) :
    (τ.decl d).tags.contains name = d.tags.contains name := by
  rw [TagMap.contains, TagMap.contains, τ.get_tags d h]

theorem first?_tags (h : name ∈ v.tagNames) : (τ.decl d).tags.first? name = d.tags.first? name := by
  rw [TagMap.first?, TagMap.first?, τ.get_tags d h]

theorem get_bindingTag (h : v.binding.isBindingTag name = true) :
    (τ.decl d).tags.get name = d.tags.get name :=
  τ.tags_decl d name (by simp [Vocabulary.readsTag, h])

theorem get?_docs (h : name ∈ v.docs.all) : (τ.decl d).docs.get? name = d.docs.get? name :=
  τ.docs_decl d name (by simpa [Vocabulary.readsDoc] using h)

/-- A translation keeps the listing of the binding tags. -/
theorem filter_names :
    (τ.decl d).tags.names.filter v.binding.isBindingTag =
      d.tags.names.filter v.binding.isBindingTag :=
  TagMap.filter_names_congr fun _ h => τ.get_bindingTag d h

/-- A translation keeps the answer to a question about the names of binding tags. -/
theorem any_bindingTag (q : String → Bool) :
    ((τ.decl d).tags.names.any fun name => q name && v.binding.isBindingTag name) =
      d.tags.names.any fun name => q name && v.binding.isBindingTag name := by
  have hany : ∀ names : List String, (names.any fun name => q name && v.binding.isBindingTag name) =
      (names.filter v.binding.isBindingTag).any q := fun names => by
    rw [List.any_filter]
    exact congrArg names.any (funext fun name => Bool.and_comm _ _)
  rw [hany, hany, τ.filter_names]

theorem type?_decl : (τ.decl d).type? = d.type?.map (·.renumber τ.position) :=
  Declaration.type?_of_kind (τ.kind_decl d)

theorem typeName?_decl : (τ.decl d).typeName? = d.typeName? :=
  Declaration.typeName?_of_kind (τ.kind_decl d)

theorem label_decl : (τ.decl d).label = d.label :=
  Declaration.label_of_kind (τ.kind_decl d) (τ.name_decl d)

theorem isPublic_decl : (τ.decl d).isPublic = d.isPublic := by
  rw [Declaration.isPublic, Declaration.isPublic, τ.visibility_decl]

/-! ## Translations of lists of declarations -/

/-- The declarations `decls'` have the translation of `decls` among them, each at its new position, and
no types but these. -/
structure Embeds (decls decls' : List Declaration) : Prop where
  getElem? : ∀ id d, decls[id]? = some d → decls'[τ.position id]? = some (τ.decl d)
  types : ∀ id' d', decls'[id']? = some d' → d'.type?.isSome →
    ∃ id d, decls[id]? = some d ∧ id' = τ.position id ∧ d' = τ.decl d

/-- The declarations `decls'` are the translation of `decls`, each at its new position, and positions
behind the last declaration stay as they are. -/
structure Maps (decls decls' : List Declaration) : Prop where
  getElem? : ∀ id, decls'[τ.position id]? = decls[id]?.map τ.decl
  fixed : ∀ id, decls.length ≤ id → τ.position id = id

namespace Maps

variable {τ} {d} {decls decls' : List Declaration} (h : τ.Maps decls decls')
include h

theorem lt_length_iff (id : DeclId) : τ.position id < decls'.length ↔ id < decls.length := by
  rw [← not_iff_not, Nat.not_lt, Nat.not_lt, ← List.getElem?_eq_none_iff,
    ← List.getElem?_eq_none_iff, h.getElem?, Option.map_eq_none_iff]

/-- What stands in the translation is the translation of something. -/
theorem exists_of_getElem? {id' : DeclId} {d' : Declaration} (hd : decls'[id']? = some d') :
    ∃ id d, decls[id]? = some d ∧ id' = τ.position id ∧ d' = τ.decl d := by
  obtain ⟨id, rfl⟩ := τ.bijective.surjective id'
  rw [h.getElem?, Option.map_eq_some_iff] at hd
  obtain ⟨d, hd, rfl⟩ := hd
  exact ⟨id, d, hd, rfl, rfl⟩

theorem embeds : τ.Embeds decls decls' where
  getElem? id d hd := by
    rw [h.getElem?, hd]
    rfl
  types _ _ hd' _ := h.exists_of_getElem? hd'

theorem wellLinked_iff : (τ.decl d).WellLinked decls' ↔ d.WellLinked decls := by
  have hparameter : ∀ id, (∃ p, decls'[τ.position id]? = some p ∧ p.isParameter = true) ↔
      ∃ p, decls[id]? = some p ∧ p.isParameter = true := fun id => by
    rw [h.getElem?]
    cases decls[id]? with
    | none => simp
    | some p => simp [Declaration.isParameter_of_kind (τ.kind_decl p)]
  unfold Declaration.WellLinked
  rw [τ.kind_decl]
  cases d.kind with
  | type info => simp [Declaration.Kind.renumber, TypeInfo.renumber, h.lt_length_iff]
  | method parameters => simp [Declaration.Kind.renumber, hparameter]
  | field enumConstant => exact Iff.rfl
  | property getter setter =>
    cases getter <;> cases setter <;> simp [Declaration.Kind.renumber, h.lt_length_iff]
  | parameter => exact Iff.rfl

/-- **Declarations are consistent iff their translation is.** -/
theorem consistent_iff : Consistent decls' ↔ Consistent decls := by
  constructor
  · rintro ⟨hlinked, hnodup⟩
    refine ⟨fun d hd => ?_, nodup_typeNames_iff.mpr fun i j d d' name hi hj hn hn' => ?_⟩
    · obtain ⟨id, hid⟩ := List.mem_iff_getElem?.mp hd
      refine h.wellLinked_iff.mp (hlinked _ (List.mem_of_getElem? (i := τ.position id) ?_))
      rw [h.getElem?, hid]
      rfl
    · refine τ.bijective.injective (nodup_typeNames_iff.mp hnodup _ _ (τ.decl d) (τ.decl d') name
        ?_ ?_ ?_ ?_)
      · rw [h.getElem?, hi]; rfl
      · rw [h.getElem?, hj]; rfl
      · rw [τ.typeName?_decl, hn]
      · rw [τ.typeName?_decl, hn']
  · rintro ⟨hlinked, hnodup⟩
    refine ⟨fun d' hd' => ?_, nodup_typeNames_iff.mpr fun i' j' d e name hi hj hn hn' => ?_⟩
    · obtain ⟨id', hid'⟩ := List.mem_iff_getElem?.mp hd'
      obtain ⟨id, d, hid, rfl, rfl⟩ := h.exists_of_getElem? hid'
      exact h.wellLinked_iff.mpr (hlinked d (List.mem_of_getElem? hid))
    · obtain ⟨i, d, hid, rfl, rfl⟩ := h.exists_of_getElem? hi
      obtain ⟨j, e, hjd, rfl, rfl⟩ := h.exists_of_getElem? hj
      rw [τ.typeName?_decl] at hn hn'
      rw [nodup_typeNames_iff.mp hnodup i j d e name hid hjd hn hn']

end Maps

end Translation

end ApiDescription
