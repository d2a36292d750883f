import ApiDescription.Proofs.Translation.Descriptions

/-!
# Metadata that nobody reads

A front end may hand over any tags and documentation tags. A run reads those that its vocabulary names
and those of the binding package, and a tag without occurrences counts as absent. `Document.strip` takes
away everything else, and a run over what remains produces the same surface.

Results:
* `getElem?_occurrences_strip`, `getElem?_lines_strip`: what stripping keeps of a declaration.
* `Translation.strip`: stripping is a translation that leaves all positions as they are.
* `assembleSchema_strip`, `describe_strip`: the schema and the descriptions of handlers stay the same.
* `Document.run_strip`: a document and what remains of it produce the same surface.
-/

namespace ApiDescription

/-! ## Stripping -/

/-- The tags that have occurrences and satisfy a condition on their names. -/
def TagMap.restrict (tags : TagMap) (p : String → Bool) : TagMap :=
  ⟨tags.occurrences.filter fun name occurrences => !occurrences.isEmpty && p name⟩

/-- The documentation tags that satisfy a condition on their names. -/
def DocTags.restrict (docs : DocTags) (p : String → Bool) : DocTags :=
  ⟨docs.lines.filter fun name _ => p name⟩

/-- The declaration without the tags and documentation tags that a vocabulary gives no meaning to. -/
def Declaration.strip (v : Vocabulary) (d : Declaration) : Declaration :=
  { d with tags := d.tags.restrict v.readsTag, docs := d.docs.restrict v.readsDoc }

/-- The document with all its declarations stripped. -/
def Document.strip (v : Vocabulary) (document : Document) : Document :=
  { document with declarations := document.declarations.map (·.strip v) }

namespace Declaration

variable (v : Vocabulary) (d : Declaration) (name : String)

/-- Stripping keeps the tags that occur and have a meaning. -/
theorem getElem?_occurrences_strip :
    (d.strip v).tags.occurrences[name]? =
      d.tags.occurrences[name]?.filter fun occurrences => !occurrences.isEmpty && v.readsTag name := by
  rw [strip, TagMap.restrict, Std.ExtTreeMap.getElem?_filter']

/-- Stripping keeps the documentation tags that have a meaning. -/
theorem getElem?_lines_strip :
    (d.strip v).docs.lines[name]? = d.docs.lines[name]?.filter fun _ => v.readsDoc name := by
  rw [strip, DocTags.restrict, Std.ExtTreeMap.getElem?_filter']

variable {v d name}

theorem get_tags_strip (h : v.readsTag name = true) :
    (d.strip v).tags.get name = d.tags.get name := by
  rw [TagMap.get, TagMap.get, Std.ExtTreeMap.getD_eq_getD_getElem?,
    Std.ExtTreeMap.getD_eq_getD_getElem?, getElem?_occurrences_strip]
  cases d.tags.occurrences[name]? with
  | none => rfl
  | some occurrences => cases occurrences <;> simp [Option.filter, h]

theorem get?_docs_strip (h : v.readsDoc name = true) :
    (d.strip v).docs.get? name = d.docs.get? name := by
  rw [DocTags.get?, DocTags.get?, getElem?_lines_strip]
  cases d.docs.lines[name]? <;> simp [Option.filter, h]

end Declaration

/-- Stripping as a translation: no position changes, and what has a meaning is kept. -/
def Translation.strip (v : Vocabulary) : Translation v where
  position := id
  bijective := Function.bijective_id
  decl := Declaration.strip v
  name_decl _ := rfl
  visibility_decl _ := rfl
  modifiers_decl _ := rfl
  declaredType_decl _ := rfl
  kind_decl d := (Declaration.Kind.renumber_id d.kind).symm
  tags_decl _ _ h := Declaration.get_tags_strip h
  docs_decl _ _ h := Declaration.get?_docs_strip h

theorem Translation.maps_strip {v : Vocabulary} {decls decls' : List Declaration}
    (h : decls' = decls.map (·.strip v)) : (Translation.strip v).Maps decls decls' where
  getElem? id := by
    rw [h, List.getElem?_map]
    rfl
  fixed _ _ := rfl

section

variable {v : Vocabulary} {filter : AccessorFilter} {model model' : Model}
  (hdecls : model'.decls = model.decls.map (·.strip v)) (hb : filter.binding = v.binding)

/-! ## The schema -/

namespace SchemaNamespace

include hdecls hb

theorem ofModel_strip (id : DeclId) :
    DataType.ofModel filter model' id = DataType.ofModel filter model id :=
  ((Translation.maps_strip hdecls).ofModel_position hb id).trans (DataType.map_renumber_id _)

theorem entry_strip (id : DeclId) : entry filter model' id = entry filter model id := by
  have hget : model'.get? id = (model.get? id).map (·.strip v) := by
    rw [Model.get?, Model.get?, hdecls, List.getElem?_map]
  unfold entry Model.decl
  rw [ofModel_strip hdecls hb, hget]
  -- the URI of a type is no metadata
  cases model.get? id <;> rfl

theorem schemaTypes_strip : schemaTypes filter model' = schemaTypes filter model := by
  have hentries : model'.entries = model.entries.map (Translation.strip v).entry := by
    rw [Model.entries, Model.entries, hdecls, List.zipIdx_map, List.map_map, List.map_map]
    rfl
  have htype : (fun e : DeclId × Declaration => e.2.type?.isSome) ∘ (Translation.strip v).entry =
      fun e => e.2.type?.isSome := rfl
  have hschema : (fun e : DeclId × Declaration => isSchemaType filter e.2) ∘
      (Translation.strip v).entry = fun e => isSchemaType filter e.2 :=
    funext fun e => Translation.isSchemaType_decl (τ := .strip v) hb e.2
  unfold schemaTypes Model.types
  rw [hentries, List.filter_map, List.filter_map, htype, hschema, List.map_map]
  rfl

theorem assembleSchema_strip : assembleSchema filter model' = assembleSchema filter model := by
  unfold assembleSchema assemble
  rw [schemaTypes_strip hdecls hb, funext (entry_strip hdecls hb)]

end SchemaNamespace

/-! ## Runs -/

include hdecls hb in
theorem Synthesizer.describe_strip (handler : Handler) :
    describe ⟨model', v, filter⟩ handler = describe ⟨model, v, filter⟩ handler := by
  have hrenumber := (Translation.maps_strip hdecls).describe_renumber hb handler
  rw [show handler.renumber (Translation.strip v).position = handler from handler.renumber_id]
    at hrenumber
  exact hrenumber.trans (Descriptor.map_renumber_id _)

end

theorem ApiSurface.run_of_decls_strip {config : Configuration} {model model' : Model}
    (hdecls : model'.decls = model.decls.map (·.strip config.vocabulary)) (handlers : List Handler) :
    run model' handlers config = run model handlers config := by
  unfold run Synthesizer.ofConfiguration
  cases config.policy with
  | error e => rfl
  | ok policy =>
    have hreport : Synthesizer.describeAll
        ⟨model', config.vocabulary, ⟨policy, config.vocabulary.binding⟩⟩ handlers =
          Synthesizer.describeAll
            ⟨model, config.vocabulary, ⟨policy, config.vocabulary.binding⟩⟩ handlers := by
      unfold Synthesizer.describeAll
      rw [funext (Synthesizer.describe_strip hdecls rfl)]
    have hschema : SchemaNamespace.assembleSchema ⟨policy, config.vocabulary.binding⟩ model' =
        SchemaNamespace.assembleSchema ⟨policy, config.vocabulary.binding⟩ model :=
      SchemaNamespace.assembleSchema_strip hdecls rfl
    simp only [bind, Except.bind, pure, Except.pure, Except.mapError, hreport, hschema]

/-- **Metadata that nobody reads has no influence.** If the declarations of a document form a model,
they still do when they are stripped of the tags without occurrences and of the tags and documentation
tags that the vocabulary gives no meaning to, and a run over what remains produces the same surface or
the same error. -/
theorem Document.run_strip (document : Document) (handlers : List Handler) (config : Configuration)
    {model : Model} (h : document.model = .ok model) :
    ∃ model', (document.strip config.vocabulary).model = .ok model' ∧
      ApiSurface.run model' handlers config = ApiSurface.run model handlers config := by
  obtain ⟨hc, hdecls⟩ := Model.ofDeclarations_eq_ok_iff.mp h
  obtain ⟨model', h'⟩ := Model.exists_ofDeclarations_iff.mpr
    ((Translation.maps_strip (v := config.vocabulary) rfl).consistent_iff.mpr hc)
  obtain ⟨-, hdecls'⟩ := Model.ofDeclarations_eq_ok_iff.mp h'
  exact ⟨model', h', ApiSurface.run_of_decls_strip (by rw [hdecls, hdecls']) handlers⟩

/-- A schema type with a tag that nobody reads, a binding tag without occurrences and a documentation
line that nobody reads, and a method that returns it. -/
def annotatedDocument : Document where
  declarations :=
    [{ Declaration.ofType "shop.Widget" with
       tags := ⟨NameMap.ofPairs
         [("example.Audited", [∅]), ("javax.xml.bind.annotation.XmlRootElement", [∅]),
           ("javax.xml.bind.annotation.XmlType", [])]⟩
       docs := .push ∅ "author" "shop" },
     (Declaration.ofMethod "widget" (.named "shop.Widget")).withDoc "return" "the widget"]
  handlers := [{ method := 1 }]

theorem annotatedDocument_run_strip :
    ∃ model model', annotatedDocument.model = .ok model ∧
      (annotatedDocument.strip {}).model = .ok model' ∧
      (annotatedDocument.strip {}).declarations.map
          (fun d => (d.tags.occurrences.keys, d.docs.lines.keys)) =
        [(["javax.xml.bind.annotation.XmlRootElement"], []), ([], ["return"])] ∧
      ApiSurface.run model' annotatedDocument.handlers { accessPolicy := some .field } =
        ApiSurface.run model annotatedDocument.handlers { accessPolicy := some .field } := by
  obtain ⟨model, h⟩ : ∃ model, annotatedDocument.model = .ok model :=
    Model.exists_ofDeclarations_iff.mpr (fault?_eq_none_iff.mp (by decide +kernel))
  obtain ⟨model', h', hrun⟩ := Document.run_strip annotatedDocument annotatedDocument.handlers
    { accessPolicy := some .field } h
  exact ⟨model, model', h, h', by decide +kernel, hrun⟩

end ApiDescription
