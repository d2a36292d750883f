import ApiDescription.Proofs.Schema.Selection
import ApiDescription.Proofs.Synthesis.Batch
import ApiDescription.Proofs.Synthesis.Origins

/-!
# What the parts of a surface refer to

A surface refers to declarations of its model by position. Wherever a part of it came from, the
declaration it refers to is of the right sort: a method, one of its parameters, a member that the filter
accepts, or a type. No type of the schema is shown twice.

Results:
* `backs_of_origin`: the declaration behind a request parameter, whatever its origin.
* `anchored_descriptor`: what the parts of a descriptor refer to.
* `anchored_of_mem_assemble`: what the parts of a data type refer to.
* `flatMap_declaration_perm`: a schema shows the types that were asked for, each as often as asked for.
* `run_anchored`: what the parts of a surface refer to.
-/

namespace ApiDescription

open scoped List

/-! ## Descriptors -/

/-- The declaration at a position may stand behind a request parameter of a method with the given
parameters. -/
inductive Synthesizer.Backs (s : Synthesizer) (context : TypeContext) (ids : List DeclId)
    (target : DeclId) : Prop where
  /-- It is a parameter of the method that does not take the body. -/
  | parameter {q : Declaration} (hid : target ∈ ids) (hq : s.model.get? target = some q)
      (hbody : takesBody s.vocabulary.web q = false)
  /-- It is an accepted member of the type of a model attribute among the parameters. -/
  | member {id typeId : DeclId} {q d m : Declaration} {info : TypeInfo} (hid : id ∈ ids)
      (hq : s.model.get? id = some q)
      (htagged : q.tags.contains s.vocabulary.web.modelAttribute = true)
      (hnamed : (context.resolve q.declaredType).qualifiedName? = some info.qualifiedName)
      (htype : s.model.get? typeId = some d) (hk : d.kind = .type info)
      (htarget : target ∈ info.members) (hm : s.model.get? target = some m)
      (haccepts : s.filter.accepts s.model m = true)

/-- The parts of a descriptor refer to a method of the model, to its parameters and to what these stand
for. -/
structure Descriptor.Anchored (s : Synthesizer) (context : TypeContext) (r : Descriptor)
    (ids : List DeclId) : Prop where
  method : ∃ d, s.model.get? r.handler = some d ∧ d.kind = .method ids
  entity : ∀ e, r.entity = some e → ∃ id ∈ ids, e.declaration = some id ∧
    ∃ q, s.model.get? id = some q ∧ Synthesizer.takesBody s.vocabulary.web q = true
  declared : ∀ p ∈ r.requestParameters, ∀ target, p.declaration = some target →
    s.Backs context ids target
  /-- A parameter that is only documented is a header. -/
  undeclared : ∀ p ∈ r.requestParameters,
    (p.type = none ↔ p.declaration = none) ∧ (p.declaration = none → p.kind = .header)

namespace Synthesizer

variable {s : Synthesizer} {context : TypeContext} {d : Declaration} {ancestors : List Declaration}
  {parameters : List (DeclId × Declaration)} {p : RequestParameter}

theorem backs_of_origin (hget : ∀ e ∈ parameters, s.model.get? e.1 = some e.2)
    (h : s.Origin context d ancestors parameters p) {target : DeclId}
    (ht : p.declaration = some target) : s.Backs context (parameters.map (·.1)) target := by
  cases h with
  | whole hq hbody name kind =>
    obtain rfl := Option.some.inj ht
    exact .parameter (List.mem_map_of_mem hq) (hget _ hq) hbody
  | @member _ _ hq hbody typeId info hattribute e he haccepts =>
    obtain rfl := Option.some.inj ht
    obtain ⟨t, htype, hk⟩ := hattribute.typed
    have htarget : e.1 ∈ (s.model.members typeId).map (·.1) := List.mem_map_of_mem he
    have hmembers : (s.model.members typeId).map (·.1) = info.members :=
      (Model.members_eq htype hk).1
    rw [hmembers] at htarget
    exact .member (List.mem_map_of_mem hq) (hget _ hq) hattribute.tagged hattribute.named htype hk
      htarget (Model.get?_of_mem_members he) haccepts
  | documented name description => cases ht

theorem undeclared_of_origin (h : s.Origin context d ancestors parameters p) :
    (p.type = none ↔ p.declaration = none) ∧ (p.declaration = none → p.kind = .header) := by
  cases h with
  | whole hq hbody name kind => exact ⟨⟨nofun, nofun⟩, nofun⟩
  | member hq hbody hattribute he haccepts => exact ⟨⟨nofun, nofun⟩, nofun⟩
  | documented name description => exact ⟨⟨fun _ => rfl, fun _ => rfl⟩, fun _ => rfl⟩

/-- What the parts of a descriptor refer to is what its handler resolves to. -/
theorem anchored_descriptor {handler : Handler}
    (hres : handler.Resolves s.model d ancestors parameters) :
    (s.descriptor handler.context handler.method d ancestors parameters).Anchored s handler.context
      (parameters.map (·.1)) where
  method := by
    refine ⟨d, ?_, hres.kind⟩
    rw [descriptor_eq, Descriptor.addParameters_eq]
    exact hres.method
  entity e he := by
    obtain ⟨before, id, q, after, hparameters, -, hbody, rfl⟩ := entity_descriptor_eq_some_iff.mp he
    have hmem : (id, q) ∈ parameters := by simp [hparameters]
    exact ⟨id, List.mem_map_of_mem hmem, rfl, q, hres.parameters _ hmem, hbody⟩
  declared p hp target ht := backs_of_origin hres.parameters (origin_of_mem_requestParameters hp) ht
  undeclared p hp := undeclared_of_origin (origin_of_mem_requestParameters hp)

end Synthesizer

/-! ## Data types -/

/-- The parts of a data type in the namespace of a URI refer to a type of the model, which has that URI,
and to members of it that the filter accepts and that hold a value. -/
def DataType.Anchored (filter : AccessorFilter) (model : Model) (uri : String) (t : DataType) : Prop :=
  ∃ d info, model.get? t.declaration = some d ∧ d.kind = .type info ∧ uri = info.uri.getD "" ∧
    ∀ accessors, t.shape = .complex accessors → ∀ a ∈ accessors, a.declaration ∈ info.members ∧
      ∃ m, model.get? a.declaration = some m ∧ filter.accepts model m = true ∧ holdsValue m = true

namespace SchemaNamespace

variable {filter : AccessorFilter} {model : Model} {ids : List DeclId} {id : DeclId}
  {spaces : List SchemaNamespace}

theorem anchored_of_entry {e : String × DataType} (h : entry filter model id = .ok e) :
    e.2.declaration = id ∧ e.2.Anchored filter model e.1 := by
  obtain ⟨ht, d, hd, huri⟩ := entry_eq_ok_iff.mp h
  obtain ⟨d', info, hd', hk, rfl, hshape⟩ := DataType.exists_kind_of_ofModel ht
  obtain rfl := Option.some.inj (hd.symm.trans hd')
  refine ⟨rfl, d, info, hd, hk, ?_, fun accessors hs a ha => ?_⟩
  · rw [← huri, uriOf, Declaration.type?_eq_some_iff.mpr hk, Option.bind_some]
  · rw [hshape accessors hs] at ha
    obtain ⟨m, hm, hf⟩ := List.mem_filterMap.mp ha
    obtain ⟨haccepts, kind, hkind, rfl⟩ := DataType.accessor?_eq_some_iff.mp hf
    have hmember : m.1 ∈ (model.members e.2.declaration).map (·.1) := List.mem_map_of_mem hm
    rw [(Model.members_eq hd hk).1] at hmember
    refine ⟨hmember, m.2, Model.get?_of_mem_members hm, haccepts, ?_⟩
    rw [← DataType.isSome_accessorKind?, hkind]
    rfl

theorem anchored_of_mem_assemble (h : assemble filter model ids = .ok spaces)
    {space : SchemaNamespace} (hspace : space ∈ spaces) {t : DataType} (ht : t ∈ space.types) :
    t.Anchored filter model space.uri := by
  obtain ⟨entries, hentries, rfl⟩ := assemble_eq_ok_iff.mp h
  obtain ⟨g, hg, rfl⟩ := List.mem_map.mp hspace
  obtain ⟨-, htypes⟩ := mem_toList_group_iff.mp hg
  have hmem : (g.1, t) ∈ entries := mem_typesAt_iff.mp (htypes ▸ ht)
  have hok : Except.ok (g.1, t) ∈ ids.map (entry filter model) :=
    hentries ▸ List.mem_map_of_mem hmem
  obtain ⟨id, -, he⟩ := List.mem_map.mp hok
  exact (anchored_of_entry he).2

/-- The declarations of the entries of types are these types. -/
theorem map_declaration_entries {entries : List (String × DataType)}
    (h : ids.map (entry filter model) = entries.map .ok) :
    entries.map (·.2.declaration) = ids := by
  induction ids generalizing entries with
  | nil =>
    have hnil : entries = [] := List.map_eq_nil_iff.mp h.symm
    rw [hnil]
    rfl
  | cons id ids ih =>
    cases entries with
    | nil => simp at h
    | cons e entries =>
      obtain ⟨he, hrest⟩ := List.cons.inj h
      rw [List.map_cons, (anchored_of_entry he).1, ih hrest]

/-- A schema shows the types that were asked for, each as often as asked for. -/
theorem flatMap_declaration_perm (h : assemble filter model ids = .ok spaces) :
    (spaces.flatMap fun space => space.types.map (·.declaration)) ~ ids := by
  obtain ⟨entries, hentries, rfl⟩ := assemble_eq_ok_iff.mp h
  have hperm := (flatMap_group_perm entries).map (·.declaration)
  rw [List.map_flatMap, List.map_map] at hperm
  rw [List.flatMap_map]
  exact hperm.trans (.of_eq (map_declaration_entries hentries))

theorem nodup_schemaTypes (filter : AccessorFilter) (model : Model) :
    (schemaTypes filter model).Nodup := by
  rw [schemaTypes_eq]
  exact List.nodup_range.filter _

end SchemaNamespace

/-! ## Surfaces -/

/-- **Everything in a surface refers to the right declarations.** A descriptor is that of a method of the
model which one of the handlers names. Its entity stands for a parameter of the method that takes the
body; a request parameter stands for another parameter of the method or for an accepted member of the
type of a model attribute, or it is a documented header without declaration and type. A data type is that
of a type of the model, in the namespace of its URI, and no type is shown twice. Its accessors stand for
accepted members of the type that hold a value. -/
theorem run_anchored {model : Model} {handlers : List Handler} {config : Configuration}
    {surface : ApiSurface} (h : ApiSurface.run model handlers config = .ok surface) :
    ∃ s, Synthesizer.ofConfiguration model config = .ok s ∧
      (∀ r ∈ surface.report.descriptors, ∃ handler ∈ handlers, r.handler = handler.method ∧
        ∃ ids, r.Anchored s handler.context ids) ∧
      (∀ space ∈ surface.namespaces, ∀ t ∈ space.types, t.Anchored s.filter model space.uri) ∧
      (surface.namespaces.flatMap fun space => space.types.map (·.declaration)).Nodup := by
  obtain ⟨s, hs, hreport, hspaces⟩ := ApiSurface.run_eq_ok_iff.mp h
  refine ⟨s, hs, fun r hr => ?_, fun space hspace t ht => ?_, ?_⟩
  · rw [hreport] at hr
    obtain ⟨handler, hhandler, hdescribe⟩ := (Synthesizer.mem_descriptors_iff s).mp hr
    obtain ⟨d, ancestors, parameters, hres, rfl⟩ := Synthesizer.describe_eq_ok_iff.mp hdescribe
    refine ⟨handler, hhandler, ?_, _, Synthesizer.anchored_descriptor hres⟩
    rw [Synthesizer.descriptor_eq, Descriptor.addParameters_eq]
    rfl
  · exact SchemaNamespace.anchored_of_mem_assemble hspaces hspace ht
  · exact (SchemaNamespace.flatMap_declaration_perm hspaces).nodup_iff.mpr
      (SchemaNamespace.nodup_schemaTypes s.filter model)

/-- A method that takes an order and a page, with the types of both; only orders are in the schema. -/
def orderModel : Model where
  decls :=
    [{ name := "place"
       declaredType := .void
       docs := .push ∅ "RequestHeader" "X-Trace where the order comes from"
       kind := .method [1, 2] },
     (Declaration.ofParameter "order" (.named "shop.Order")).withTag ({} : WebTags).requestBody ∅,
     (Declaration.ofParameter "page" (.named "shop.Page")).withTag ({} : WebTags).modelAttribute ∅,
     ({ name := "Order"
        declaredType := .named "shop.Order"
        kind := .type { qualifiedName := "shop.Order", uri := some "urn:shop", members := [4, 5] } } :
          Declaration).withTag "javax.xml.bind.annotation.XmlType" ∅,
     .ofField "item" (.named "shop.Item"),
     (Declaration.ofField "price" (.primitive "int")).withTag ({} : BindingTags).transient ∅,
     { name := "Page"
       declaredType := .named "shop.Page"
       kind := .type { qualifiedName := "shop.Page", members := [7] } },
     .ofField "size" (.primitive "int")]
  consistent := fault?_eq_none_iff.mp (by decide +kernel)

/-- The declarations behind each descriptor, with that of the entity in front of those of the request
parameters. -/
def ApiSurface.described (surface : ApiSurface) : List (DeclId × List (Option DeclId)) :=
  surface.report.descriptors.map fun r =>
    (r.handler, r.entity.bind (·.declaration) :: r.requestParameters.map (·.declaration))

/-- The declarations behind the types of each namespace. -/
def ApiSurface.shown (surface : ApiSurface) : List (String × List DeclId) :=
  surface.namespaces.map fun space => (space.uri, space.types.map (·.declaration))

theorem orderModel_anchored : ∃ surface,
    ApiSurface.run orderModel [{ method := 0 }] { accessPolicy := some .field } = .ok surface ∧
    surface.described = [(0, [some 1, none, some 7])] ∧ surface.shown = [("urn:shop", [3])] ∧
    ∃ s : Synthesizer, s.model = orderModel ∧
      (∀ r ∈ surface.report.descriptors, ∃ ids, r.Anchored s ∅ ids) ∧
      ∀ space ∈ surface.namespaces, ∀ t ∈ space.types, t.Anchored s.filter orderModel space.uri := by
  have hparts : (ApiSurface.run orderModel [{ method := 0 }]
      { accessPolicy := some .field }).toOption.map (fun surface => (surface.described, surface.shown)) =
        some ([(0, [some 1, none, some 7])], [("urn:shop", [3])]) := by
    decide +kernel
  obtain ⟨surface, hsome, hpair⟩ := Option.map_eq_some_iff.mp hparts
  have h : ApiSurface.run orderModel [{ method := 0 }] { accessPolicy := some .field } = .ok surface :=
    toOption_eq_some_iff.mp hsome
  obtain ⟨hdescribed, hshown⟩ := Prod.mk.inj hpair
  obtain ⟨s, hs, hdescriptors, htypes, -⟩ := run_anchored h
  obtain rfl := Except.ok.inj hs
  refine ⟨surface, h, hdescribed, hshown, _, rfl, fun r hr => ?_, htypes⟩
  obtain ⟨handler, hhandler, -, ids, hr⟩ := hdescriptors r hr
  obtain rfl := List.mem_singleton.mp hhandler
  exact ⟨ids, hr⟩

end ApiDescription
