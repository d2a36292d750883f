import ApiDescription.Proofs.Metadata.Headers
import ApiDescription.Proofs.Parameter.Expansion
import ApiDescription.Proofs.Synthesis.AncestorOrder
import ApiDescription.Sample.WidgetService

/-!
# The headers of a description

Both the headers of the response and those of the request are collected from tags and from documentation
lines, of the method and of its ancestors. For the response tags come first and the last source of a name
counts; for the request lines come first and so does their first source. So a line is preferred to a tag
in either case, but of two lines for one name it is the later that describes a response header and the
earlier that describes a request header.

A parameter of the method may be carried in a header too. It takes the place of documented headers of its
name, and no documentation of headers has a say in its description.

Results:
* `responseHeaders_descriptor`: the response headers by their sources.
* `isFirst_of_mem_requestParameters`: the description of a request header without a declaration.
* `exists_header_of_names`: the names for which there is a request header.
* `describe_headers`: the headers of a description, and when a request header is described by a line.
-/

namespace ApiDescription

open HeaderSource

namespace Synthesizer

variable {s : Synthesizer} {context : TypeContext} {id : DeclId} {d : Declaration}
  {ancestors : List Declaration} {parameters : List (DeclId × Declaration)} {p : RequestParameter}
  {name description : String}

/-- What may give response headers, in order: the tags of the method, those of its ancestors, and then the
documentation lines of the method and those of its ancestors. -/
def responseSources (s : Synthesizer) (d : Declaration) (ancestors : List Declaration) :
    List HeaderSource :=
  let tags := ofTags s.vocabulary.metadata.responseHeaders
  let lines := ofLines s.vocabulary.docs.responseHeader
  tags d ++ ancestors.flatMap tags ++ lines d ++ ancestors.flatMap lines

/-- The documentation lines that may give request headers, those of the method before those of its
ancestors. -/
def requestLines (s : Synthesizer) (d : Declaration) (ancestors : List Declaration) :
    List HeaderSource :=
  let lines := ofLines s.vocabulary.docs.requestHeader
  lines d ++ ancestors.flatMap lines

/-- The tags that may give request headers, those of the method before those of its ancestors. -/
def requestTags (s : Synthesizer) (d : Declaration) (ancestors : List Declaration) :
    List HeaderSource :=
  let tags := ofTags s.vocabulary.metadata.requestHeaders
  tags d ++ ancestors.flatMap tags

/-! ## Response headers -/

theorem responseHeaders_descriptor :
    (s.descriptor context id d ancestors parameters).responseHeaders =
      NameMap.ofPairs ((s.responseSources d ancestors).filterMap pair?) := by
  have hmerge : (s.descriptor context id d ancestors parameters).responseHeaders =
      (Metadata.responseHeaders s.vocabulary d ancestors).merge := by
    rw [descriptor_eq, Descriptor.addParameters_eq]
    rfl
  rw [hmerge, Contributions.merge, Metadata.responseHeaders, Metadata.ordered_headers]
  rfl

/-! ## Request headers -/

theorem explicitHeaders_eq : explicitHeaders s.vocabulary d ancestors =
    ((s.requestLines d ancestors ++ s.requestTags d ancestors).filterMap pair?).map
      fun e => { name := e.1, kind := .header, description := e.2 } := by
  rw [explicitHeaders, Metadata.requestHeaders, Metadata.documentedFirst_headers,
    Contributions.documentedFirst, List.append_assoc]
  rfl

/-- A search among the documented headers finds the one that the first source of its name gives. -/
theorem isFirst_of_find?_explicitHeaders
    (h : (explicitHeaders s.vocabulary d ancestors).find? (fun q => q.identity = ⟨.header, name⟩) =
      some p) :
    IsFirst (s.requestLines d ancestors ++ s.requestTags d ancestors) name p.description := by
  rw [explicitHeaders_eq, List.find?_map, Option.map_eq_some_iff] at h
  obtain ⟨e, hfound, rfl⟩ := h
  simp only [Function.comp_def, RequestParameter.identity, ParameterIdentity.mk.injEq,
    true_and] at hfound
  exact (find?_sources_eq_some_iff.mp hfound).2

/-- A header without a declaration is described by the first source of its name. -/
theorem isFirst_of_mem_requestParameters
    (hp : p ∈ (s.descriptor context id d ancestors parameters).requestParameters)
    (hkind : p.kind = .header) (hdeclaration : p.declaration = none) :
    IsFirst (s.requestLines d ancestors ++ s.requestTags d ancestors) p.name p.description := by
  have hidentity : p.identity = ⟨.header, p.name⟩ := by rw [RequestParameter.identity, hkind]
  rw [mem_requestParameters_descriptor_iff, candidates_eq, List.find?_append, Option.or_eq_some_iff,
    hidentity] at hp
  rcases hp with hclassified | ⟨-, hdocumented⟩
  · -- what a parameter of the method is classified as is always declared
    obtain ⟨e, -, hmem⟩ := List.mem_flatMap.mp (List.mem_of_find?_eq_some hclassified)
    exact absurd hdeclaration (Classification.declaration_ne_none_of_mem_classify hmem)
  · exact isFirst_of_find?_explicitHeaders hdocumented

/-- There is a request header for each name that is documented. -/
theorem exists_header_of_names {source : HeaderSource}
    (hsource : source ∈ s.requestLines d ancestors ++ s.requestTags d ancestors)
    (hnames : source.Names name) :
    ∃ p ∈ (s.descriptor context id d ancestors parameters).requestParameters,
      p.kind = .header ∧ p.name = name := by
  obtain ⟨description, hgives⟩ := hnames
  have hoffered : ∃ p ∈ s.candidates context d ancestors parameters,
      p.identity = ⟨.header, name⟩ := by
    refine ⟨{ name, kind := .header, description }, ?_, rfl⟩
    rw [candidates_eq, explicitHeaders_eq]
    refine List.mem_append_right _ (List.mem_map.mpr ⟨(name, description), ?_, rfl⟩)
    exact List.mem_filterMap.mpr ⟨source, hsource, pair?_eq_some_iff.mpr hgives⟩
  obtain ⟨p, hp, hidentity⟩ := exists_identity_iff.mpr hoffered
  exact ⟨p, hp, congrArg (·.kind) hidentity, congrArg (·.name) hidentity⟩

end Synthesizer

/-- **The headers of a description.** A response has the headers that some source names, and the last
source of a name describes it. A request header without a declaration is described by the first source of
its name, where all lines come before all tags. So where a line names a header that no parameter of the
method is carried in, there is a request header of that name, and it is described by a line. -/
theorem describe_headers {s : Synthesizer} {handler : Handler} {r : Descriptor}
    (h : s.describe handler = .ok r) :
    ∃ d ancestors parameters, handler.Resolves s.model d ancestors parameters ∧
      (∀ name, name ∈ r.responseHeaders ↔
        ∃ source ∈ s.responseSources d ancestors, source.Names name) ∧
      (∀ name description, r.responseHeaders[name]? = some description ↔
        IsLast (s.responseSources d ancestors) name description) ∧
      (∀ p ∈ r.requestParameters, p.kind = .header → p.declaration = none →
        IsFirst (s.requestLines d ancestors ++ s.requestTags d ancestors) p.name p.description) ∧
      ∀ name, (∃ source ∈ s.requestLines d ancestors, source.Names name) →
        (∀ p ∈ r.requestParameters, p.kind = .header → p.name = name → p.declaration = none) →
        (∃ p ∈ r.requestParameters, p.kind = .header ∧ p.name = name) ∧
        ∀ p ∈ r.requestParameters, p.kind = .header → p.name = name →
          IsFirst (s.requestLines d ancestors) name p.description := by
  obtain ⟨d, ancestors, parameters, hres, rfl⟩ := Synthesizer.describe_eq_ok_iff.mp h
  refine ⟨d, ancestors, parameters, hres, fun name => ?_, fun name description => ?_,
    fun p => Synthesizer.isFirst_of_mem_requestParameters, fun name hline hundeclared => ⟨?_, ?_⟩⟩
  · rw [Synthesizer.responseHeaders_descriptor]
    exact mem_ofPairs_sources_iff
  · rw [Synthesizer.responseHeaders_descriptor]
    exact getElem?_ofPairs_sources_iff
  · obtain ⟨source, hsource, hnames⟩ := hline
    exact Synthesizer.exists_header_of_names (List.mem_append_left _ hsource) hnames
  · rintro p hp hkind rfl
    have hfirst := Synthesizer.isFirst_of_mem_requestParameters hp hkind
      (hundeclared p hp hkind rfl)
    exact hfirst.of_append hline

/-- A method with a tag for a header in either direction, and its type with two tags for the same headers
and a line for that of the request. -/
def tracedDeclarations : List Declaration :=
  let described := fun (d : Declaration) (text : String) =>
    (d.withTag ({} : MetadataTags).responseHeaders (Sample.headersTag [("X-Page", text)])).withTag
      ({} : MetadataTags).requestHeaders (Sample.headersTag [("X-Trace", text)])
  [described (.ofMethod "trace" .void) "of the method",
    (described (.ofType "shop.Traces") "of the type").withDoc "RequestHeader" "X-Trace by a line"]

/-- The synthesizer of the declarations of a trace. -/
def tracedSynthesizer : Synthesizer where
  model :=
    { decls := tracedDeclarations
      consistent := fault?_eq_none_iff.mp (by decide +kernel) }
  vocabulary := {}
  filter := ⟨.field, {}⟩

/-- The last tag describes the response header, and the first line the request header. -/
theorem traced_headers : ∃ (r : Descriptor) (d : Declaration) (ancestors : List Declaration),
    tracedSynthesizer.describe { method := 0, ancestors := [1] } = .ok r ∧
    r.responseHeaders.toList = [("X-Page", "of the type")] ∧
    IsLast (tracedSynthesizer.responseSources d ancestors) "X-Page" "of the type" ∧
    r.requestParameters.map (fun p => (p.kind, p.name, p.description)) =
      [(.header, "X-Trace", "by a line")] := by
  have hr : (tracedSynthesizer.describe { method := 0, ancestors := [1] }).toOption.map (fun r =>
      (r.responseHeaders.toList, r.requestParameters.map fun p => (p.kind, p.name, p.description))) =
        some ([("X-Page", "of the type")], [(.header, "X-Trace", "by a line")]) := by
    decide +kernel
  cases h : tracedSynthesizer.describe { method := 0, ancestors := [1] } with
  | error e => simp [h, Except.toOption] at hr
  | ok r =>
    obtain ⟨d, ancestors, parameters, -, -, hlast, -⟩ := describe_headers h
    rw [h] at hr
    obtain ⟨hresponse, hrequest⟩ := Prod.mk.inj (Option.some.inj hr)
    have hpage : r.responseHeaders["X-Page"]? = some "of the type" := by
      rw [← Std.ExtTreeMap.mem_toList_iff_getElem?_eq_some, hresponse]
      exact List.mem_singleton_self _
    exact ⟨r, d, ancestors, rfl, hresponse, (hlast _ _).mp hpage, hrequest⟩

end ApiDescription
