import ApiDescription.Proofs.Metadata.Codes

/-!
# What tags and documentation lines give as headers

A header is given by a nested tag that has a name, or by a documentation line, whose first word is the
name. Other tags and blank lines give none. Many sources may give headers of one name. Which of them
counts is a matter of their order: response headers take the last one, request headers the first.

Results:
* `HeaderSource.pair?_eq_some_iff`: the header that a source gives (`HeaderSource.Gives`).
* `mem_ofPairs_sources_iff`, `getElem?_ofPairs_sources_iff`: a map of headers by name has the names that
  are given, and holds the last of each name.
* `find?_sources_eq_some_iff`: a search for a name finds the first header of that name.
* `IsFirst.of_append`: a name that is given early on has its first source there.
* `Metadata.ordered_headers`, `Metadata.documentedFirst_headers`: the headers of a method are those of
  its sources, in either order.
-/

namespace ApiDescription

/-- Something that may give a header: a nested tag, or a documentation line. -/
inductive HeaderSource where
  | tag (header : Tag)
  | line (text : String)

namespace HeaderSource

/-- A source gives a header that has a name. -/
inductive Gives : HeaderSource → String → String → Prop
  | tag {header : Tag} {name description : String} (h : header.GivesHeader name description) :
      Gives (.tag header) name description
  | line {text name description : String} (h : DocLine.split text = (name, description))
      (hne : name ≠ "") : Gives (.line text) name description

/-- A source gives a header of this name. -/
def Names (source : HeaderSource) (name : String) : Prop :=
  ∃ description, source.Gives name description

/-- The description that the last source of a name gives. -/
def IsLast (sources : List HeaderSource) (name description : String) : Prop :=
  ∃ before source after, sources = before ++ source :: after ∧ source.Gives name description ∧
    ∀ later ∈ after, ¬ later.Names name

/-- The description that the first source of a name gives. -/
def IsFirst (sources : List HeaderSource) (name description : String) : Prop :=
  ∃ before source after, sources = before ++ source :: after ∧ source.Gives name description ∧
    ∀ earlier ∈ before, ¬ earlier.Names name

/-- The nested tags of a declaration. -/
def ofTags (tagName : String) (d : Declaration) : List HeaderSource :=
  (Metadata.nestedTags d tagName).map .tag

/-- The lines of a documentation tag of a declaration. -/
def ofLines (docName : String) (d : Declaration) : List HeaderSource :=
  ((d.docs.get? docName).getD []).map .line

/-- The name and the description that a source gives. -/
def pair? : HeaderSource → Option (String × String)
  | .tag header => Metadata.headerPair? header
  | .line text => (some (DocLine.split text)).filter (·.1 ≠ "")

variable {source : HeaderSource} {sources others : List HeaderSource} {name description : String}

/-! ## Single sources -/

theorem pair?_eq_some_iff :
    source.pair? = some (name, description) ↔ source.Gives name description := by
  cases source with
  | tag header =>
    rw [pair?, Metadata.headerPair?_eq_some_iff]
    constructor
    · exact .tag
    · rintro ⟨h⟩
      exact h
  | line text =>
    rw [pair?, Option.filter_eq_some_iff, Option.some.injEq, decide_eq_true_eq]
    constructor
    · rintro ⟨h, hne⟩
      exact .line h hne
    · rintro (_ | ⟨h, hne⟩)
      exact ⟨h, hne⟩

theorem names_iff_pair? : source.Names name ↔ ∃ description, source.pair? = some (name, description) := by
  simp only [Names, pair?_eq_some_iff]

/-- A source gives a header of one name only. -/
theorem any_pair?_iff : (source.pair?.any fun e => e.1 = name) = true ↔ source.Names name := by
  rw [names_iff_pair?, Option.any_eq_true]
  constructor
  · rintro ⟨e, hpair, hname⟩
    obtain rfl : e.1 = name := by simpa using hname
    exact ⟨e.2, hpair⟩
  · rintro ⟨description, hpair⟩
    exact ⟨_, hpair, by simp⟩

/-! ## Lists of sources -/

/-- A map of headers by name has the names that are given. -/
theorem mem_ofPairs_sources_iff :
    name ∈ NameMap.ofPairs (sources.filterMap pair?) ↔ ∃ source ∈ sources, source.Names name := by
  simp only [NameMap.mem_ofPairs_iff, List.mem_filterMap, names_iff_pair?]
  constructor
  · rintro ⟨e, ⟨source, hmem, hpair⟩, rfl⟩
    exact ⟨source, hmem, e.2, hpair⟩
  · rintro ⟨source, hmem, description, hpair⟩
    exact ⟨_, ⟨source, hmem, hpair⟩, rfl⟩

/-- A map of headers by name holds the last of each name. -/
theorem getElem?_ofPairs_sources_iff :
    (NameMap.ofPairs (sources.filterMap pair?))[name]? = some description ↔
      IsLast sources name description := by
  rw [NameMap.getElem?_ofPairs_filterMap_eq_some_iff]
  simp only [IsLast, names_iff_pair?, not_exists, ne_eq, pair?_eq_some_iff]

/-- A search for a name finds the first header of that name. -/
theorem find?_sources_eq_some_iff {e : String × String} :
    (sources.filterMap pair?).find? (fun e => e.1 = name) = some e ↔
      e.1 = name ∧ IsFirst sources name e.2 := by
  rw [List.find?_filterMap]
  simp only [Option.bind_eq_some_iff, List.find?_eq_some_iff_append, any_pair?_iff,
    Bool.not_eq_true', ← Bool.not_eq_true]
  constructor
  · rintro ⟨source, ⟨hnames, before, after, rfl, hbefore⟩, hpair⟩
    have hname : e.1 = name := by simpa [hpair] using any_pair?_iff.mpr hnames
    subst hname
    exact ⟨rfl, before, source, after, rfl, pair?_eq_some_iff.mp hpair, hbefore⟩
  · rintro ⟨rfl, before, source, after, rfl, hgives, hbefore⟩
    exact ⟨source, ⟨⟨e.2, hgives⟩, before, after, rfl, hbefore⟩, pair?_eq_some_iff.mpr hgives⟩

/-- If a name is given early on, its first source is found there. -/
theorem IsFirst.of_append (h : IsFirst (sources ++ others) name description)
    (hnamed : ∃ source ∈ sources, source.Names name) : IsFirst sources name description := by
  obtain ⟨before, source, after, hsources, hgives, hbefore⟩ := h
  obtain ⟨early, hearly, hnames⟩ := hnamed
  rcases List.append_eq_append_iff.mp hsources with ⟨between, rfl, -⟩ | ⟨behind, rfl, hbehind⟩
  · -- all early sources are before the first one that names the header
    exact absurd hnames (hbefore early (List.mem_append_left _ hearly))
  · cases behind with
    | nil =>
      rw [List.append_nil] at hearly
      exact absurd hnames (hbefore early hearly)
    | cons first rest =>
      obtain ⟨rfl, -⟩ := List.cons.inj hbehind
      exact ⟨before, source, rest, rfl, hgives, hbefore⟩

/-! ## Channels -/

theorem filterMap_ofTags (tagName : String) (d : Declaration) :
    (ofTags tagName d).filterMap pair? =
      (d.tags.get tagName).flatMap (Metadata.headerPairs · "value") := by
  rw [ofTags, List.filterMap_map, Metadata.nestedTags, List.filterMap_flatMap]
  simp only [Metadata.headerPairs_eq]
  rfl

theorem filterMap_ofLines (docName : String) (d : Declaration) :
    (ofLines docName d).filterMap pair? = DocLine.named d.docs docName := by
  have hpair : pair? ∘ line = (Option.guard fun e : String × String => e.1 ≠ "") ∘ DocLine.split := by
    funext text
    rw [Function.comp_apply, pair?, Option.filter_some]
    rfl
  rw [ofLines, List.filterMap_map, DocLine.named, ← List.filterMap_eq_filter, List.filterMap_map, hpair]

end HeaderSource

namespace Metadata

open HeaderSource

/-- The sources of the headers of a method and its ancestors. -/
def headerSources (tagName docName : String) (own : Declaration) (ancestors : List Declaration) :
    Contributions HeaderSource :=
  .collect own ancestors (ofTags tagName) (ofLines docName)

variable {tagName docName : String} {own : Declaration} {ancestors : List Declaration}

theorem headers_eq : headers tagName docName own ancestors =
    .collect own ancestors (fun d => (ofTags tagName d).filterMap pair?)
      (fun d => (ofLines docName d).filterMap pair?) := by
  simp only [filterMap_ofTags, filterMap_ofLines]
  rfl

theorem ordered_headers : (headers tagName docName own ancestors).ordered =
    (headerSources tagName docName own ancestors).ordered.filterMap pair? := by
  rw [headers_eq]
  simp only [Contributions.ordered, Contributions.collect, headerSources, List.filterMap_append,
    List.filterMap_flatMap]

theorem documentedFirst_headers : (headers tagName docName own ancestors).documentedFirst =
    (headerSources tagName docName own ancestors).documentedFirst.filterMap pair? := by
  rw [headers_eq]
  simp only [Contributions.documentedFirst, Contributions.collect, headerSources,
    List.filterMap_append, List.filterMap_flatMap]

end Metadata

end ApiDescription
