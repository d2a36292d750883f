import ApiDescription.Proofs.DocLine.Entries
import ApiDescription.Proofs.NameMaps
import ApiDescription.Proofs.Parameter.Expansion
import ApiDescription.Proofs.Synthesis.AncestorOrder

/-!
# What is documented about parameters

Two documentation tags of a method describe its parameters, each line by the declared name of one. The
framework's tag is preferred to the general one, even where its line says nothing more than the name, and
within a tag the last line of a name counts. A parameter keeps its description under whatever name it goes
on the wire. The members that a model attribute is taken apart into are not described, and what ancestors
document about parameters is never read.

Results:
* `DocLine.getElem?_named_iff`: the map of the lines of a tag holds the last of each name.
* `HandlerMetadata.description_eq_iff`: the description of a name (`DescribesParameter`).
* `Classification.describes_of_mem_classify`: the descriptions of what a parameter is classified as.
* `describe_documentation`: the descriptions of the entity and the request parameters of a method.
-/

namespace ApiDescription

/-! ## Lines -/

namespace DocLine

open Text

/-- A line has a name as its first word and a text behind it. -/
def Names (line name text : String) : Prop :=
  name ≠ "" ∧ ∃ l : Layout, l.line = line ∧ l.key = name ∧ l.description = text

/-- The text behind a name in the last of the lines that have it as their first word. -/
def IsLast (lines : List String) (name text : String) : Prop :=
  ∃ before line after, lines = before ++ line :: after ∧ Names line name text ∧
    ∀ later ∈ after, ∀ other, ¬ Names later name other

variable {docs : DocTags} {tag line name text : String}

theorem names_iff : Names line name text ↔ name ≠ "" ∧ split line = (name, text) := by
  rw [Names, (split_unique line).1]

/-- The name and the text of a line that is not blank. -/
def readName? (line : String) : Option (String × String) :=
  if line.toList.all isBlank then none else some (split line)

theorem readName?_eq_some_iff : readName? line = some (name, text) ↔ Names line name text := by
  rw [names_iff, readName?, Option.ite_none_left_eq_some, Option.some.injEq, List.all_eq_true]
  constructor
  · rintro ⟨hblank, hsplit⟩
    refine ⟨?_, hsplit⟩
    rintro rfl
    exact hblank (fst_split_eq_empty_iff.mp (congrArg Prod.fst hsplit))
  · rintro ⟨hne, hsplit⟩
    refine ⟨fun hblank => hne ?_, hsplit⟩
    rw [← fst_split_eq_empty_iff.mpr hblank, hsplit]

theorem named_eq_filterMap : named docs tag = (linesOf docs tag).filterMap readName? := by
  rw [named_eq, ← List.filterMap_eq_map, List.filterMap_filter]
  refine List.filterMap_congr fun line _ => ?_
  unfold readName?
  cases line.toList.all isBlank <;> rfl

/-- The map of the lines of a tag holds the last of each name. -/
theorem getElem?_named_iff :
    (NameMap.ofPairs (named docs tag))[name]? = some text ↔ IsLast (linesOf docs tag) name text := by
  rw [named_eq_filterMap, NameMap.getElem?_ofPairs_filterMap_eq_some_iff]
  simp only [IsLast, ne_eq, readName?_eq_some_iff]

/-- The map has no entry iff no line has the name. -/
theorem getElem?_named_eq_none_iff : (NameMap.ofPairs (named docs tag))[name]? = none ↔
    ∀ line ∈ linesOf docs tag, ∀ text, ¬ Names line name text := by
  rw [← Option.not_isSome_iff_eq_none, Std.ExtTreeMap.isSome_getElem?_iff_mem,
    NameMap.mem_ofPairs_iff, named_eq_filterMap]
  simp only [List.mem_filterMap, ← readName?_eq_some_iff]
  constructor
  · intro hno line hline text hread
    exact hno ⟨(name, text), ⟨line, hline, hread⟩, rfl⟩
  · rintro hno ⟨⟨_, text⟩, ⟨line, hline, hread⟩, rfl⟩
    exact hno line hline text hread

end DocLine

/-! ## Descriptions -/

open DocLine

/-- What the documentation of a method says about a parameter with a declared name. -/
inductive DescribesParameter (names : DocTagNames) (docs : DocTags) (name : String) : String → Prop
  /-- The framework's tag counts, whatever its last line says. -/
  | override {text : String} (h : IsLast (linesOf docs names.rsParam) name text) :
      DescribesParameter names docs name text
  | general {text : String} (hno : ∀ line ∈ linesOf docs names.rsParam, ∀ t, ¬ Names line name t)
      (h : IsLast (linesOf docs names.param) name text) : DescribesParameter names docs name text
  | undocumented (hno : ∀ line ∈ linesOf docs names.rsParam, ∀ t, ¬ Names line name t)
      (hnone : ∀ line ∈ linesOf docs names.param, ∀ t, ¬ Names line name t) :
      DescribesParameter names docs name ""

/-- A name is described by the lines of the method, and by nothing of the ancestors. -/
theorem HandlerMetadata.description_eq_iff {v : Vocabulary} {d : Declaration}
    {ancestors : List Declaration} {name text : String} :
    (HandlerMetadata.of v d ancestors).description name = text ↔
      DescribesParameter v.docs d.docs name text := by
  have hlines : (HandlerMetadata.of v d ancestors).description name =
      ((NameMap.ofPairs (named d.docs v.docs.rsParam))[name]?.or
        (NameMap.ofPairs (named d.docs v.docs.param))[name]?).getD "" := by
    rw [← NameMap.getElem?_ofPairs_append, ← Std.ExtTreeMap.getD_eq_getD_getElem?]
    rfl
  rw [hlines]
  constructor
  · rintro rfl
    cases hoverride : (NameMap.ofPairs (named d.docs v.docs.rsParam))[name]? with
    | some text => exact .override (getElem?_named_iff.mp hoverride)
    | none =>
      have hno := getElem?_named_eq_none_iff.mp hoverride
      cases hgeneral : (NameMap.ofPairs (named d.docs v.docs.param))[name]? with
      | some text => exact .general hno (getElem?_named_iff.mp hgeneral)
      | none => exact .undocumented hno (getElem?_named_eq_none_iff.mp hgeneral)
  · intro h
    cases h with
    | override h => rw [getElem?_named_iff.mpr h, Option.some_or, Option.getD_some]
    | general hno h =>
      rw [getElem?_named_eq_none_iff.mpr hno, getElem?_named_iff.mpr h, Option.none_or,
        Option.getD_some]
    | undocumented hno hnone =>
      rw [getElem?_named_eq_none_iff.mpr hno, getElem?_named_eq_none_iff.mpr hnone, Option.none_or,
        Option.getD_none]

theorem HandlerMetadata.describes_description (v : Vocabulary) (d : Declaration)
    (ancestors : List Declaration) (name : String) :
    DescribesParameter v.docs d.docs name ((HandlerMetadata.of v d ancestors).description name) :=
  description_eq_iff.mp rfl

/-- A request parameter stands for a parameter of a method and is described under its declared name. -/
structure RequestParameter.IsDescribed (p : RequestParameter) (names : DocTagNames) (docs : DocTags)
    (id : DeclId) (parameter : Declaration) : Prop where
  declaration : p.declaration = some id
  description : DescribesParameter names docs parameter.name p.description

namespace Synthesizer

variable {s : Synthesizer} {context : TypeContext} {id : DeclId} {d q : Declaration}
  {ancestors : List Declaration} {parameters : List (DeclId × Declaration)} {p : RequestParameter}

/-- A parameter that stays whole keeps its description under any name and of any kind. -/
theorem isDescribed_whole (name : String) (kind : ParameterKind) :
    ((s.classification context d ancestors).whole id q name kind).IsDescribed s.vocabulary.docs
      d.docs id q :=
  ⟨rfl, HandlerMetadata.describes_description s.vocabulary d ancestors q.name⟩

theorem isDescribed_entityOf :
    (s.entityOf context d ancestors id q).IsDescribed s.vocabulary.docs d.docs id q :=
  ⟨rfl, HandlerMetadata.describes_description s.vocabulary d ancestors q.name⟩

/-- What is not taken apart is described. -/
theorem isDescribed_of_mem_classify
    (hwhole : ∀ typeId info,
      ¬ (s.classification context d ancestors).IsAttributeOf q typeId info)
    (hp : p ∈ (s.classification context d ancestors).classify id q) :
    p.IsDescribed s.vocabulary.docs d.docs id q := by
  rcases Classification.classify_eq_whole_or (s.classification context d ancestors) id q with
    ⟨name, kind, heq⟩ | ⟨typeId, info, hattribute⟩
  · rw [heq] at hp
    obtain rfl := List.mem_singleton.mp hp
    exact isDescribed_whole name kind
  · exact absurd hattribute (hwhole typeId info)

/-- What a model attribute is taken apart into is not described. -/
theorem description_eq_empty_of_mem_classify {typeId : DeclId} {info : TypeInfo}
    (hattribute : (s.classification context d ancestors).IsAttributeOf q typeId info)
    (hp : p ∈ (s.classification context d ancestors).classify id q) : p.description = "" := by
  rw [Classification.classify_of_isAttributeOf hattribute] at hp
  obtain ⟨e, -, rfl⟩ := List.mem_map.mp hp
  rfl

/-- A request parameter with a declaration is what a parameter of the method is classified as. -/
theorem exists_mem_classify_of_declared
    (hp : p ∈ (s.descriptor context id d ancestors parameters).requestParameters)
    (hdeclared : p.declaration ≠ none) :
    ∃ e ∈ parameters, takesBody s.vocabulary.web e.2 = false ∧
      p ∈ (s.classification context d ancestors).classify e.1 e.2 := by
  have hfound := List.mem_of_find?_eq_some ((mem_requestParameters_of_declared hdeclared).mp hp)
  obtain ⟨e, he, hmem⟩ := List.mem_flatMap.mp hfound
  obtain ⟨he, hbody⟩ := List.mem_filter.mp he
  have hbody : (!takesBody s.vocabulary.web e.2) = true := hbody
  exact ⟨e, he, by simpa using hbody, hmem⟩

end Synthesizer

/-- **The documentation of parameters.** The entity of a description, and whatever a parameter of the
method is classified as without being taken apart, is described by the lines of the method for its
declared name: the last line of the framework's tag, or else that of the general one, or else not at all.
What a model attribute is taken apart into has no description. All request parameters with a declaration
are among these. -/
theorem describe_documentation {s : Synthesizer} {handler : Handler} {r : Descriptor}
    (h : s.describe handler = .ok r) :
    ∃ d ancestors parameters, handler.Resolves s.model d ancestors parameters ∧
      (∀ e, r.entity = some e → ∃ id q, (id, q) ∈ parameters ∧
        Synthesizer.takesBody s.vocabulary.web q = true ∧
        e.IsDescribed s.vocabulary.docs d.docs id q) ∧
      (∀ id q, (id, q) ∈ parameters → Synthesizer.takesBody s.vocabulary.web q = false →
        ∀ p ∈ (s.classification handler.context d ancestors).classify id q,
          ((∀ typeId info,
              ¬ (s.classification handler.context d ancestors).IsAttributeOf q typeId info) →
            p.IsDescribed s.vocabulary.docs d.docs id q) ∧
          ∀ typeId info,
            (s.classification handler.context d ancestors).IsAttributeOf q typeId info →
              p.description = "") ∧
      ∀ p ∈ r.requestParameters, p.declaration ≠ none → ∃ id q, (id, q) ∈ parameters ∧
        Synthesizer.takesBody s.vocabulary.web q = false ∧
        p ∈ (s.classification handler.context d ancestors).classify id q := by
  obtain ⟨d, ancestors, parameters, hres, rfl⟩ := Synthesizer.describe_eq_ok_iff.mp h
  refine ⟨d, ancestors, parameters, hres, fun e he => ?_, fun id q _ _ p hp => ⟨fun hwhole => ?_,
    fun typeId info hattribute => ?_⟩, fun p hp hdeclared => ?_⟩
  · obtain ⟨before, id, q, after, rfl, -, hbody, rfl⟩ :=
      Synthesizer.entity_descriptor_eq_some_iff.mp he
    exact ⟨id, q, by simp, hbody, Synthesizer.isDescribed_entityOf⟩
  · exact Synthesizer.isDescribed_of_mem_classify hwhole hp
  · exact Synthesizer.description_eq_empty_of_mem_classify hattribute hp
  · obtain ⟨⟨id, q⟩, hmem, hbody, hp⟩ := Synthesizer.exists_mem_classify_of_declared hp hdeclared
    exact ⟨id, q, hmem, hbody, hp⟩

/-- A method that takes an identifier under another name, an order as its body and a page. The framework's
tag says nothing of the order and something else of the page, and the type of the method documents the
page too. -/
def placementDeclarations : List Declaration :=
  let place : Declaration := { name := "place", declaredType := .void, kind := .method [1, 2, 3] }
  [((((((place.withDoc "param" "id a number").withDoc "param" "id of the order").withDoc "param"
      "order what is ordered").withDoc "param" "page any page").withDoc "RSParam" "order").withDoc
      "RSParam" " page  the page to show"),
   (Declaration.ofParameter "id" (.primitive "long")).withTag ({} : WebTags).pathVariable
      ((∅ : Tag).set "value" (.str "orderId")),
   (Declaration.ofParameter "order" (.named "shop.Order")).withTag ({} : WebTags).requestBody ∅,
   .ofParameter "page" (.primitive "int"),
   (Declaration.ofType "shop.Orders").withDoc "RSParam" "page of the type"]

/-- The synthesizer of the declarations of a placement. -/
def placementSynthesizer : Synthesizer where
  model :=
    { decls := placementDeclarations
      consistent := fault?_eq_none_iff.mp (by decide +kernel) }
  vocabulary := {}
  filter := ⟨.field, {}⟩

/-- The order is described by the framework's tag with nothing. -/
theorem placement_documentation : ∃ (r : Descriptor) (d : Declaration) (e : RequestParameter)
      (id : DeclId) (q : Declaration),
    placementSynthesizer.describe { method := 0, ancestors := [4] } = .ok r ∧
    r.entity = some e ∧ e.IsDescribed ({} : DocTagNames) d.docs id q ∧
    e.name = "order" ∧ e.description = "" ∧
    r.requestParameters.map (fun p => (p.kind, p.name, p.description)) =
      [(.query, "page", "the page to show"), (.path, "orderId", "of the order")] := by
  have hr : (placementSynthesizer.describe { method := 0, ancestors := [4] }).toOption.map (fun r =>
      (r.entity.map fun p => (p.name, p.description),
        r.requestParameters.map fun p => (p.kind, p.name, p.description))) =
      some (some ("order", ""),
        [(.query, "page", "the page to show"), (.path, "orderId", "of the order")]) := by
    decide +kernel
  cases h : placementSynthesizer.describe { method := 0, ancestors := [4] } with
  | error e => simp [h, Except.toOption] at hr
  | ok r =>
    obtain ⟨d, ancestors, parameters, -, hentity, -⟩ := describe_documentation h
    rw [h] at hr
    obtain ⟨horder, hparameters⟩ := Prod.mk.inj (Option.some.inj hr)
    obtain ⟨e, he, hnothing⟩ := Option.map_eq_some_iff.mp horder
    obtain ⟨hname, hdescription⟩ := Prod.mk.inj hnothing
    obtain ⟨id, q, -, -, hdescribed⟩ := hentity e he
    exact ⟨r, d, e, id, q, rfl, he, hdescribed, hname, hdescription, hparameters⟩

end ApiDescription
