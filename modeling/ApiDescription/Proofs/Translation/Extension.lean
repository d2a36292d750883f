import ApiDescription.Proofs.Synthesis.Variables
import ApiDescription.Proofs.Translation.Descriptions

/-!
# Further declarations

A model may grow behind its last declaration. As long as what is added are no types, it is not found by
name and is no member, accessor method or parameter of anything that was there before. So the old
declarations embed into the grown ones as they are, and what is made of them stays the same.

Results:
* `embeds_append`: declarations embed into themselves with others that are no types behind them.
* `types_append`: the types stay the same.
* `extend_invariant`: so do descriptions, data types and the schema.
-/

namespace ApiDescription

theorem Translation.embeds_append (v : Vocabulary) (decls : List Declaration)
    {extra : List Declaration} (hextra : ∀ d ∈ extra, d.type? = none) :
    (Translation.identity v).Embeds decls (decls ++ extra) where
  getElem? id d hd := by
    obtain ⟨hlt, -⟩ := List.getElem?_eq_some_iff.mp hd
    exact (List.getElem?_append_left hlt).trans hd
  types id d hd htype := by
    rcases Nat.lt_or_ge id decls.length with hlt | hge
    · rw [List.getElem?_append_left hlt] at hd
      exact ⟨id, d, hd, rfl, rfl⟩
    · rw [List.getElem?_append_right hge] at hd
      rw [hextra d (List.mem_of_getElem? hd)] at htype
      cases htype

section

variable {model model' : Model} {extra : List Declaration}
  (hdecls : model'.decls = model.decls ++ extra) (hextra : ∀ d ∈ extra, d.type? = none)
include hdecls hextra

theorem Model.embeds_of_append (v : Vocabulary) :
    (Translation.identity v).Embeds model.decls model'.decls := by
  rw [hdecls]
  exact Translation.embeds_append v model.decls hextra

theorem DataType.ofModel_append {filter : AccessorFilter} {id : DeclId} (hid : id < model.size) :
    ofModel filter model' id = ofModel filter model id := by
  obtain ⟨d, hd⟩ := Model.exists_get?_iff.mpr hid
  have hembeds := Model.embeds_of_append hdecls hextra { binding := filter.binding }
  exact (hembeds.ofModel_position rfl hd).trans (DataType.map_renumber_id _)

/-- The types of a model are those of the grown model, at the same positions. -/
theorem Model.types_append : model'.types = model.types := by
  rw [types, types, entries, entries, hdecls, List.zipIdx_append, List.map_append, List.filter_append,
    Nat.zero_add]
  refine List.append_right_eq_self.mpr (List.filter_eq_nil_iff.mpr fun e he => ?_)
  obtain ⟨⟨d, id⟩, hd, rfl⟩ := List.mem_map.mp he
  simp [hextra d (List.fst_mem_of_mem_zipIdx hd)]

namespace SchemaNamespace

theorem entry_append {filter : AccessorFilter} {id : DeclId} (hid : id < model.size) :
    entry filter model' id = entry filter model id := by
  obtain ⟨d, hd⟩ := Model.exists_get?_iff.mpr hid
  have hget : model'.get? id = some d := (Model.embeds_of_append hdecls hextra {}).get?_position hd
  unfold entry
  rw [DataType.ofModel_append hdecls hextra hid, Model.decl_eq_ok_iff.mpr hd,
    Model.decl_eq_ok_iff.mpr hget]

theorem assembleSchema_append (filter : AccessorFilter) :
    assembleSchema filter model' = assembleSchema filter model := by
  have hids : schemaTypes filter model' = schemaTypes filter model := by
    rw [schemaTypes, schemaTypes, Model.types_append hdecls hextra]
  have hentries : (schemaTypes filter model).mapM (entry filter model') =
      (schemaTypes filter model).mapM (entry filter model) := by
    refine mapM_congr fun id hid => entry_append hdecls hextra ?_
    obtain ⟨d, hget, -⟩ := mem_schemaTypes_iff.mp hid
    exact Model.exists_get?_iff.mp ⟨d, hget⟩
  rw [assembleSchema, assembleSchema, hids, assemble, assemble, hentries]

end SchemaNamespace

theorem Synthesizer.describe_append {v : Vocabulary} {filter : AccessorFilter}
    (hb : filter.binding = v.binding) {handler : Handler}
    (hin : ∀ id ∈ handler.method :: handler.ancestors, id < model.size) :
    describe ⟨model', v, filter⟩ handler = describe ⟨model, v, filter⟩ handler := by
  have hrenumber := (Model.embeds_of_append hdecls hextra v).describe_renumber hb handler
    fun id hid hle => absurd (hin id hid) (Nat.not_lt.mpr hle)
  rw [show handler.renumber (Translation.identity v).position = handler from handler.renumber_id]
    at hrenumber
  exact hrenumber.trans (Descriptor.map_renumber_id _)

end

/-- **Further declarations that are no types change nothing.** Let declarations form a model, also with
further declarations behind them that are no types. Under any configuration a handler whose method and
ancestors are among the first has the same description, or fails with the same error. The data type at
each of their positions, or the error that there is none, and the namespaces of the schema are the same,
too. -/
theorem extend_invariant {decls extra : List Declaration} {model model' : Model}
    (h : Model.ofDeclarations decls = .ok model)
    (h' : Model.ofDeclarations (decls ++ extra) = .ok model')
    (hextra : ∀ d ∈ extra, d.type? = none) :
    (∀ config s, Synthesizer.ofConfiguration model config = .ok s →
      ∃ s', Synthesizer.ofConfiguration model' config = .ok s' ∧
        ∀ handler : Handler, handler.method < decls.length →
          (∀ a ∈ handler.ancestors, a < decls.length) → s'.describe handler = s.describe handler) ∧
    (∀ filter, ∀ id < decls.length,
      DataType.ofModel filter model' id = DataType.ofModel filter model id) ∧
    ∀ filter, SchemaNamespace.assembleSchema filter model' =
      SchemaNamespace.assembleSchema filter model := by
  obtain ⟨-, rfl⟩ := Model.ofDeclarations_eq_ok_iff.mp h
  obtain ⟨-, hdecls⟩ := Model.ofDeclarations_eq_ok_iff.mp h'
  refine ⟨fun config s hs => ?_, fun filter id hid => DataType.ofModel_append hdecls hextra hid,
    SchemaNamespace.assembleSchema_append hdecls hextra⟩
  obtain ⟨policy, hpolicy, rfl⟩ := Synthesizer.ofConfiguration_eq_ok_iff.mp hs
  refine ⟨_, Synthesizer.ofConfiguration_eq_ok_iff.mpr ⟨policy, hpolicy, rfl⟩,
    fun handler hmethod hancestors => ?_⟩
  exact Synthesizer.describe_append hdecls hextra rfl (List.forall_mem_cons.mpr ⟨hmethod, hancestors⟩)

/-- A field with a binding tag and a method that takes the parameters of the method of the store. -/
def storeExtras : List Declaration :=
  [(Declaration.ofField "key" (.named "shop.Key")).withTag
     "javax.xml.bind.annotation.XmlElement" ∅,
   { name := "store", declaredType := .void, kind := .method [2, 1] }]

/-- The method of the store is described as before when there are further declarations. -/
theorem store_extended : ∃ model' s',
    Model.ofDeclarations (storeDeclarations ++ storeExtras) = .ok model' ∧
    Synthesizer.ofConfiguration model' { accessPolicy := some .field } = .ok s' ∧
    (∀ d ∈ storeExtras, d.type? = none) ∧
    s'.describe storeHandler = storeSynthesizer.describe storeHandler ∧
    (∃ r, s'.describe storeHandler = .ok r ∧ r.requestParameters.map (·.declaration) = [some 4]) ∧
    SchemaNamespace.assembleSchema s'.filter model' =
      SchemaNamespace.assembleSchema s'.filter storeSynthesizer.model := by
  have hextra : ∀ d ∈ storeExtras, d.type? = none := by
    simp [storeExtras, Declaration.ofField, Declaration.withTag, Declaration.type?]
  have h : Model.ofDeclarations storeDeclarations = .ok storeSynthesizer.model :=
    Model.ofDeclarations_decls storeSynthesizer.model
  obtain ⟨model', h'⟩ : ∃ model', Model.ofDeclarations (storeDeclarations ++ storeExtras) = .ok model' :=
    Model.exists_ofDeclarations_iff.mpr (fault?_eq_none_iff.mp (by decide +kernel))
  obtain ⟨hdescribe, -, hschema⟩ := extend_invariant h h' hextra
  obtain ⟨s', hs', hsame⟩ := hdescribe { accessPolicy := some .field } storeSynthesizer
    (Synthesizer.ofConfiguration_eq_ok_iff.mpr ⟨.field, rfl, rfl⟩)
  have hstore := hsame storeHandler (by decide) (by simp [storeHandler])
  have hr : (storeSynthesizer.describe storeHandler).toOption.map (fun r =>
      r.requestParameters.map (·.declaration)) = some [some 4] := by
    decide +kernel
  refine ⟨model', s', h', hs', hextra, hstore, ?_, hschema s'.filter⟩
  rw [hstore]
  obtain ⟨r, hsome, hfields⟩ := Option.map_eq_some_iff.mp hr
  exact ⟨r, toOption_eq_some_iff.mp hsome, hfields⟩

end ApiDescription
