import ApiDescription.Proofs.Metadata.Headers
import ApiDescription.Proofs.Route.Scanning
import ApiDescription.Sample.WidgetService

/-!
# How nested tags are grouped

What a declaration has to say in nested tags it may say in one occurrence of a tag or in several, and an
occurrence may hold one nested tag alone or a list of them, with other things between. Codes and headers
go by the nested tags that are left when all of this is taken away, in the order in which they stand. The
route does not even go by their order: it is made of the texts that the mappings hold.

Results:
* `Tag.nests_iff`: the nested tags of all occurrences of a tag in order (`Tag.Nests`).
* `Contributions.collect_congr`: contributions of declarations that correspond one by one.
* `fullCode?_congr`: a code goes by the nested tags of its headers.
* `contributions_regrouped`: declarations that differ in how their tags are grouped contribute the same.
-/

namespace ApiDescription

/-! ## Nested tags -/

namespace Tag

/-- The items that an element of a tag holds: those of its list, or its one value that is no list. -/
inductive Holds (tag : Tag) (element : String) : List TagValue → Prop
  | absent (h : tag.get? element = none) : Holds tag element []
  | alone {value : TagValue} (h : tag.get? element = some value)
      (hvalue : ∀ items, value ≠ .list items) : Holds tag element [value]
  | listed {items : List TagValue} (h : tag.get? element = some (.list items)) :
      Holds tag element items

/-- The nested tags that the occurrences of a tag hold under an element, one occurrence after the other.
Items that are no tags are passed over. -/
inductive Nests (element : String) : List Tag → List Tag → Prop
  | nil : Nests element [] []
  | cons {occurrence : Tag} {rest nested others : List Tag} {items : List TagValue}
      (hitems : occurrence.Holds element items)
      (hnested : Selects (fun value tag => value = .tag tag.elements) items nested)
      (hrest : Nests element rest others) : Nests element (occurrence :: rest) (nested ++ others)

variable {tag tag' : Tag} {element text : String} {items : List TagValue}
  {occurrences nested : List Tag}

theorem holds_iff : tag.Holds element items ↔ tag.values element = items := by
  unfold values
  constructor
  · intro h
    cases h with
    | absent h => rw [h]
    | alone h hvalue =>
      rw [h]
      split
      · next heq => exact absurd (Option.some.inj heq) (hvalue _)
      · next heq => rw [Option.some.inj heq]
      · next heq => cases heq
    | listed h => rw [h]
  · rintro rfl
    cases h : tag.get? element with
    | none => exact .absent h
    | some value =>
      cases value with
      | list items => exact .listed h
      | bool _ | int _ | str _ | type _ | tag _ => exact .alone h nofun

theorem selects_ofValue?_iff :
    Selects (fun value tag => value = .tag tag.elements) items nested ↔
      items.filterMap ofValue? = nested := by
  refine selects_iff fun value tag => ?_
  obtain ⟨elements⟩ := tag
  cases value <;> simp [ofValue?]

/-- The nested tags of all occurrences are those of each of them, put together in order. -/
theorem nests_iff :
    Nests element occurrences nested ↔ occurrences.flatMap (·.tags element) = nested := by
  constructor
  · intro h
    induction h with
    | nil => rfl
    | cons hitems hnested _ ih =>
      rw [List.flatMap_cons, ih, tags, holds_iff.mp hitems, selects_ofValue?_iff.mp hnested]
  · rintro rfl
    induction occurrences with
    | nil => exact .nil
    | cons occurrence rest ih =>
      rw [List.flatMap_cons]
      exact .cons (holds_iff.mpr rfl) (selects_ofValue?_iff.mpr rfl) ih

theorem mem_strings_iff :
    text ∈ tag.strings element ↔ ∃ items, tag.Holds element items ∧ .str text ∈ items := by
  simp only [holds_iff, exists_eq_left', strings, List.mem_filterMap]
  constructor
  · rintro ⟨value, hmem, hvalue⟩
    cases value <;> cases hvalue
    exact hmem
  · intro hmem
    exact ⟨_, hmem, rfl⟩

end Tag

/-! ## Codes -/

/-- Two tags have the same elements but for their headers, and the same headers in their nested tags. -/
structure Tag.SameCode (tag tag' : Tag) : Prop where
  others : ∀ element, element ≠ "additionalHeaders" → tag'.get? element = tag.get? element
  headers : ∃ headers, Nests "additionalHeaders" [tag] headers ∧
    Nests "additionalHeaders" [tag'] headers

/-- A header may stand alone or be the only one of a list. -/
theorem Tag.sameCode_setTags (tag header : Tag) :
    (tag.set "additionalHeaders" (.tag header.elements)).SameCode
      (tag.setTags "additionalHeaders" [header]) where
  others element hne := by rw [setTags, get?_set, get?_set, if_neg hne, if_neg hne]
  headers := by
    refine ⟨[header], nests_iff.mpr ?_, nests_iff.mpr ?_⟩
    · simp [tags, values, get?_set, ofValue?]
    · simp [tags, values, setTags, get?_set, ofValue?]

namespace Metadata

theorem fullCode?_congr {tag tag' : Tag} (h : tag.SameCode tag') (model : Model)
    (types : WellKnownTypes) : fullCode? model types tag' = fullCode? model types tag := by
  have hcode : code? tag' = code? tag := by
    simp only [code?, Tag.int?, Tag.str?, h.others "code" (by decide), h.others "condition" (by decide)]
  have htype : codeType? model types tag' = codeType? model types tag := by
    simp only [codeType?, Tag.type?, h.others "type" (by decide)]
  have hheaders : tag'.tags "additionalHeaders" = tag.tags "additionalHeaders" := by
    obtain ⟨headers, hnests, hnests'⟩ := h.headers
    rw [Tag.nests_iff, List.flatMap_singleton] at hnests hnests'
    rw [hnests, hnests']
  simp only [fullCode?, hcode, htype, headerPairs, hheaders]

end Metadata

/-! ## Declarations -/

namespace Declaration

/-- A mapping of a declaration holds a text as a template. -/
def HasTemplate (web : WebTags) (d : Declaration) (template : String) : Prop :=
  ∃ mapping ∈ d.tags.get web.requestMapping, ∃ items,
    (mapping.Holds "value" items ∨ mapping.Holds "path" items) ∧ .str template ∈ items

/-- The tags of codes and headers. -/
def nestingTags (names : MetadataTags) : List String :=
  [names.statusCodes, names.warnings, names.responseHeaders, names.requestHeaders]

/-- Two declarations differ in how their tags of codes and headers are grouped, and in how the templates of
their mappings are, but not in what these hold. -/
structure Regrouped (v : Vocabulary) (d d' : Declaration) : Prop where
  docs : d'.docs = d.docs
  nested : ∀ name ∈ nestingTags v.metadata, ∃ nested,
    Tag.Nests "value" (d.tags.get name) nested ∧ Tag.Nests "value" (d'.tags.get name) nested
  templates : ∀ template, d'.HasTemplate v.web template ↔ d.HasTemplate v.web template

variable {v : Vocabulary} {d d' : Declaration}

theorem mem_templatesOf_iff {web : WebTags} {template : String} :
    template ∈ Route.templatesOf web d ↔ d.HasTemplate web template := by
  simp only [Route.templatesOf, HasTemplate, List.mem_flatMap, List.mem_append, Tag.mem_strings_iff,
    or_and_right, exists_or]

theorem Regrouped.nestedTags_eq (h : d.Regrouped v d') {name : String}
    (hname : name ∈ nestingTags v.metadata) :
    Metadata.nestedTags d' name = Metadata.nestedTags d name := by
  obtain ⟨nested, hnests, hnests'⟩ := h.nested name hname
  rw [Metadata.nestedTags, Metadata.nestedTags, Tag.nests_iff.mp hnests, Tag.nests_iff.mp hnests']

end Declaration

/-! ## Contributions -/

/-- Declarations that correspond one by one contribute the same, if each contributes the same as its
counterpart. -/
theorem Contributions.collect_congr {α δ : Type} {R : δ → δ → Prop} {structured documented : δ → List α}
    (hs : ∀ d d', R d d' → structured d' = structured d)
    (hd : ∀ d d', R d d' → documented d' = documented d) {own own' : δ} {ancestors ancestors' : List δ}
    (hown : R own own') (hancestors : List.Forall₂ R ancestors ancestors') :
    collect own' ancestors' structured documented = collect own ancestors structured documented := by
  have hflat : ∀ {f : δ → List α}, (∀ d d', R d d' → f d' = f d) →
      ancestors'.flatMap f = ancestors.flatMap f := by
    intro f hf
    induction hancestors with
    | nil => rfl
    | cons hfirst _ ih => rw [List.flatMap_cons, List.flatMap_cons, hf _ _ hfirst, ih]
  simp only [collect, hs _ _ hown, hd _ _ hown, hflat hs, hflat hd]

namespace Metadata

variable {v : Vocabulary} {own own' : Declaration} {ancestors ancestors' : List Declaration}

/-- Headers go by nested tags and documentation lines. -/
theorem headers_regrouped {tagName : String} (htag : tagName ∈ Declaration.nestingTags v.metadata)
    (docName : String) (hown : own.Regrouped v own')
    (hancestors : List.Forall₂ (Declaration.Regrouped v) ancestors ancestors') :
    headers tagName docName own' ancestors' = headers tagName docName own ancestors := by
  rw [headers_eq, headers_eq]
  refine Contributions.collect_congr (fun d d' h => ?_) (fun d d' h => ?_) hown hancestors
  · rw [HeaderSource.ofTags, HeaderSource.ofTags, h.nestedTags_eq htag]
  · rw [HeaderSource.ofLines, HeaderSource.ofLines, h.docs]

end Metadata

namespace Route

variable {v : Vocabulary} {own own' : Declaration} {ancestors ancestors' : List Declaration}

theorem of_regrouped (hown : own.Regrouped v own')
    (hancestors : List.Forall₂ (Declaration.Regrouped v) ancestors ancestors') :
    of v.web own' ancestors' = of v.web own ancestors := by
  refine ofTemplates_congr fun template => ?_
  have hall : ∀ {ds ds' : List Declaration}, List.Forall₂ (Declaration.Regrouped v) ds ds' →
      (template ∈ ds'.flatMap (templatesOf v.web) ↔ template ∈ ds.flatMap (templatesOf v.web)) := by
    intro ds ds' h
    induction h with
    | nil => rfl
    | cons hfirst _ ih =>
      rw [List.flatMap_cons, List.flatMap_cons, List.mem_append, List.mem_append, ih,
        Declaration.mem_templatesOf_iff, Declaration.mem_templatesOf_iff, hfirst.templates]
  exact hall (.cons hown hancestors)

end Route

/-- **Contributions do not depend on how tags are grouped.** Let a method and its ancestors be replaced by
declarations that hold the same nested tags in the same order, grouped in another way, and the same
templates. Then all that they contribute is the same, and so is the route. A code is the same too whether
its only header stands alone or in a list. -/
theorem contributions_regrouped {v : Vocabulary} {own own' : Declaration}
    {ancestors ancestors' : List Declaration} (hown : own.Regrouped v own')
    (hancestors : List.Forall₂ (Declaration.Regrouped v) ancestors ancestors') (model : Model) :
    Metadata.statusCodes v model own' ancestors' = Metadata.statusCodes v model own ancestors ∧
    Metadata.warnings v own' ancestors' = Metadata.warnings v own ancestors ∧
    Metadata.responseHeaders v own' ancestors' = Metadata.responseHeaders v own ancestors ∧
    Metadata.requestHeaders v own' ancestors' = Metadata.requestHeaders v own ancestors ∧
    Route.of v.web own' ancestors' = Route.of v.web own ancestors ∧
    ∀ (types : WellKnownTypes) (code header : Tag),
      Metadata.fullCode? model types (code.setTags "additionalHeaders" [header]) =
        Metadata.fullCode? model types (code.set "additionalHeaders" (.tag header.elements)) := by
  have hdocumented : ∀ (docName : String) (d d' : Declaration), d.Regrouped v d' →
      Metadata.documentedCodes d' docName = Metadata.documentedCodes d docName := by
    intro docName d d' h
    rw [Metadata.documentedCodes, Metadata.documentedCodes, h.docs]
  refine ⟨?_, ?_, ?_, ?_, Route.of_regrouped hown hancestors, fun types code header => ?_⟩
  · refine Contributions.collect_congr (fun d d' h => ?_) (hdocumented _) hown hancestors
    rw [h.nestedTags_eq (by simp [Declaration.nestingTags])]
  · refine Contributions.collect_congr (fun d d' h => ?_) (hdocumented _) hown hancestors
    rw [h.nestedTags_eq (by simp [Declaration.nestingTags])]
  · exact Metadata.headers_regrouped (by simp [Declaration.nestingTags]) _ hown hancestors
  · exact Metadata.headers_regrouped (by simp [Declaration.nestingTags]) _ hown hancestors
  · exact Metadata.fullCode?_congr (Tag.sameCode_setTags code header) model types

/-- A type with two codes in one list, and one mapping. -/
def listedOrders : Declaration :=
  ((Declaration.ofType "shop.Orders").withTag ({} : MetadataTags).statusCodes
    (Sample.codesTag [(404, "no order"), (410, "gone")])).withTag ({} : WebTags).requestMapping
      (.ofElements [("value", .list [.str "/orders", .str "/orders/\x7bid\x7d"])])

/-- The same type with one code alone, the other in a list with something else, and two mappings. -/
def scatteredOrders : Declaration :=
  let code : Int64 → String → TagValue := fun code condition =>
    .tag (Tag.ofElements [("code", .int code), ("condition", .str condition)]).elements
  ((((Declaration.ofType "shop.Orders").withTag ({} : MetadataTags).statusCodes
    (.ofElements [("value", code 404 "no order")])).withTag ({} : MetadataTags).statusCodes
    (.ofElements [("value", .list [.bool true, code 410 "gone", .str "soon"])])).withTag
      ({} : WebTags).requestMapping (.ofElements [("path", .str "/orders/\x7bid\x7d")])).withTag
      ({} : WebTags).requestMapping (.ofElements [("value", .str "/orders")])

theorem listedOrders_regrouped : listedOrders.Regrouped {} scatteredOrders where
  docs := rfl
  nested name hname := by
    refine ⟨_, Tag.nests_iff.mpr rfl, Tag.nests_iff.mpr ?_⟩
    simp only [Declaration.nestingTags, List.mem_cons, List.not_mem_nil, or_false] at hname
    rcases hname with rfl | rfl | rfl | rfl <;> rfl
  templates template := by
    rw [← Declaration.mem_templatesOf_iff, ← Declaration.mem_templatesOf_iff]
    have hlisted : Route.templatesOf {} listedOrders = ["/orders", "/orders/\x7bid\x7d"] := by
      decide +kernel
    have hscattered : Route.templatesOf {} scatteredOrders = ["/orders/\x7bid\x7d", "/orders"] := by
      decide +kernel
    rw [hlisted, hscattered]
    simp [or_comm]

/-- The codes of both, whether they come from the method's own tags or from those of an ancestor. -/
theorem scatteredOrders_contribute :
    listedOrders.Regrouped {} scatteredOrders ∧
    List.Forall₂ (Declaration.Regrouped {}) [listedOrders] [scatteredOrders] ∧
    Metadata.statusCodes {} ∅ scatteredOrders [scatteredOrders] =
      Metadata.statusCodes {} ∅ listedOrders [listedOrders] ∧
    (Metadata.statusCodes {} ∅ scatteredOrders [scatteredOrders]).ordered.map
      (fun rc => (rc.code, rc.condition)) =
        [(404, some "no order"), (410, some "gone"), (404, some "no order"), (410, some "gone")] ∧
    (Route.of {} scatteredOrders [scatteredOrders]).names = ["id"] := by
  have hancestors : List.Forall₂ (Declaration.Regrouped {}) [listedOrders] [scatteredOrders] :=
    .cons listedOrders_regrouped .nil
  obtain ⟨hcodes, -, -, -, hroute, -⟩ :=
    contributions_regrouped listedOrders_regrouped hancestors ∅
  have hroute' : Route.of {} scatteredOrders [scatteredOrders] =
      Route.of {} listedOrders [listedOrders] := hroute
  refine ⟨listedOrders_regrouped, hancestors, hcodes, ?_, ?_⟩
  · rw [hcodes]
    decide +kernel
  · rw [hroute']
    decide +kernel

end ApiDescription
