import ApiDescription.Proofs.Model.Inheritance
import ApiDescription.Proofs.Parameter.Expansion

/-!
# The precedence of classification

Six tags say where a parameter is carried. The first of them that a parameter has decides, and also gives
the parameter its name. Without any of them a model attribute is taken apart, and whatever is left is told
by its type, or else by the route. So the route has the last word, and a route with more placeholders can
only make path segments of query parameters.

Results:
* `namesOnWire_iff`: the name that a tag gives is the first that is not empty.
* `binding?_eq_some_iff`: the tag that decides is the first in the order of precedence.
* `isClassified_classify`, `IsClassified.classify_eq`: what is made of a parameter is what the first rule
  about it says, and nothing else.
* `IsClassified.withRoute`: what a larger route changes.
* `classify_precedence`: both at once.
-/

namespace ApiDescription

/-- An element of a tag gives a name that counts. -/
def Tag.GivesName (tag : Tag) (element name : String) : Prop :=
  tag.str? element = some name ∧ name ≠ ""

namespace Classification

/-- A tag gives this name to a parameter with a declared name. -/
inductive NamesOnWire (tag : Tag) (declared : String) : String → Prop
  | value {name : String} (h : tag.GivesName "value" name) : NamesOnWire tag declared name
  | name {name : String} (hvalue : ∀ other, ¬ tag.GivesName "value" other)
      (h : tag.GivesName "name" name) : NamesOnWire tag declared name
  | declared (hvalue : ∀ other, ¬ tag.GivesName "value" other)
      (hname : ∀ other, ¬ tag.GivesName "name" other) : NamesOnWire tag declared declared

/-- A request parameter stands for a declared parameter as a whole: under this name and carried in this
way, described as documented under the declared name, and of the type in which the variables in force are
filled in. -/
structure StandsFor (c : Classification) (id : DeclId) (parameter : Declaration) (name : String)
    (kind : ParameterKind) (p : RequestParameter) : Prop where
  named : p.name = name
  carried : p.kind = kind
  described : p.description = c.metadata.descriptions.getD parameter.name ""
  declared : p.declaration = some id
  typed : p.type = some (c.context.resolve parameter.declaredType)

/-- No tag says anything about a parameter, and the framework does not supply it. -/
structure IsPlain (c : Classification) (parameter : Declaration) : Prop where
  unbound : c.Unbound parameter
  untagged : parameter.tags.contains c.vocabulary.web.modelAttribute = false
  supplied : ∀ q ∈ c.vocabulary.types.contextTypes,
    ¬ c.model.Inherits (c.context.resolve parameter.declaredType) q

/-- The request parameters of a declared parameter by the first rule that is about it. -/
inductive IsClassified (c : Classification) (id : DeclId) (parameter : Declaration) :
    List RequestParameter → Prop
  /-- The first of the binding tags decides, and its first occurrence gives the name. -/
  | bound {place : Nat} {tagName name : String} {kind : ParameterKind} {tag : Tag} {others : List Tag}
      {p : RequestParameter} (hcarries : Carries c.vocabulary.web place tagName kind)
      (hfirst : ∀ place' tagName' kind', Carries c.vocabulary.web place' tagName' kind' →
        place' < place → parameter.tags.contains tagName' = false)
      (htag : parameter.tags.get tagName = tag :: others)
      (hname : NamesOnWire tag parameter.name name)
      (hp : c.StandsFor id parameter name kind p) : IsClassified c id parameter [p]
  /-- A model attribute is taken apart into the accepted members of its type. -/
  | expanded {typeId : DeclId} {info : TypeInfo} {members : List (DeclId × Declaration)}
      (h : c.IsAttributeOf parameter typeId info) (hids : members.map (·.1) = info.members)
      (hmembers : ∀ e ∈ members, c.model.decls[e.1]? = some e.2) :
      IsClassified c id parameter
        ((members.filter fun e => c.filter.accepts c.model e.2).map c.ofMember)
  /-- A model attribute of a type that the model does not have. -/
  | unmodelled {p : RequestParameter} (hunbound : c.Unbound parameter)
      (htagged : parameter.tags.contains c.vocabulary.web.modelAttribute = true)
      (hmissing : ∀ name args, c.context.resolve parameter.declaredType = .declared name args →
        ∀ d ∈ c.model.decls, d.typeName? ≠ some name)
      (hp : c.StandsFor id parameter parameter.name .query p) : IsClassified c id parameter [p]
  | context {q : String} {p : RequestParameter} (hunbound : c.Unbound parameter)
      (huntagged : parameter.tags.contains c.vocabulary.web.modelAttribute = false)
      (hq : q ∈ c.vocabulary.types.contextTypes)
      (hinherits : c.model.Inherits (c.context.resolve parameter.declaredType) q)
      (hp : c.StandsFor id parameter parameter.name .context p) : IsClassified c id parameter [p]
  | path {p : RequestParameter} (hplain : c.IsPlain parameter)
      (hroute : parameter.name ∈ c.metadata.route.placeholders)
      (hp : c.StandsFor id parameter parameter.name .path p) : IsClassified c id parameter [p]
  | query {p : RequestParameter} (hplain : c.IsPlain parameter)
      (hroute : parameter.name ∉ c.metadata.route.placeholders)
      (hp : c.StandsFor id parameter parameter.name .query p) : IsClassified c id parameter [p]

/-- The classification under another route. -/
def withRoute (c : Classification) (route : Route) : Classification :=
  { c with metadata := { c.metadata with route } }

variable {c : Classification} {id : DeclId} {parameter : Declaration} {tag : Tag}
  {declared name : String} {kind : ParameterKind} {p : RequestParameter}
  {ps : List RequestParameter} {route : Route}

/-! ## Names -/

theorem filter_str?_eq_some_iff {element : String} :
    (tag.str? element).filter (· ≠ "") = some name ↔ tag.GivesName element name := by
  rw [Option.filter_eq_some_iff, decide_eq_true_eq, Tag.GivesName]

theorem filter_str?_eq_none_iff {element : String} :
    (tag.str? element).filter (· ≠ "") = none ↔ ∀ name, ¬ tag.GivesName element name := by
  simp only [Option.eq_none_iff_forall_ne_some, ← filter_str?_eq_some_iff, ne_eq]

theorem nameOnWire_eq (tag : Tag) (declared : String) :
    nameOnWire tag declared = (((tag.str? "value").filter (· ≠ "")).or
      ((tag.str? "name").filter (· ≠ ""))).getD declared := by
  have hfind : ∀ o : Option String, o.toList.find? (· ≠ "") = o.filter (· ≠ "") := by
    intro o
    cases o with
    | none => rfl
    | some value => rw [Option.toList_some, List.find?_singleton, Option.filter_some]
  unfold nameOnWire
  rw [List.filterMap_eq_flatMap_toList]
  simp only [List.flatMap_cons, List.flatMap_nil, List.find?_append, List.append_nil, hfind]

/-- **The name that a tag gives to a parameter is the first that is not empty.** -/
theorem namesOnWire_iff : NamesOnWire tag declared name ↔ nameOnWire tag declared = name := by
  rw [nameOnWire_eq]
  constructor
  · intro h
    cases h with
    | value h => rw [filter_str?_eq_some_iff.mpr h, Option.some_or, Option.getD_some]
    | name hvalue h =>
      rw [filter_str?_eq_none_iff.mpr hvalue, filter_str?_eq_some_iff.mpr h, Option.none_or,
        Option.getD_some]
    | declared hvalue hname =>
      rw [filter_str?_eq_none_iff.mpr hvalue, filter_str?_eq_none_iff.mpr hname, Option.none_or,
        Option.getD_none]
  · rintro rfl
    cases hvalue : (tag.str? "value").filter (· ≠ "") with
    | some value => exact .value (filter_str?_eq_some_iff.mp hvalue)
    | none =>
      cases hname : (tag.str? "name").filter (· ≠ "") with
      | some name =>
        exact .name (filter_str?_eq_none_iff.mp hvalue) (filter_str?_eq_some_iff.mp hname)
      | none => exact .declared (filter_str?_eq_none_iff.mp hvalue) (filter_str?_eq_none_iff.mp hname)

/-! ## The first rule -/

theorem standsFor_iff : c.StandsFor id parameter name kind p ↔ p = c.whole id parameter name kind := by
  constructor
  · rintro ⟨hname, hkind, hdescription, hdeclaration, htype⟩
    cases p
    simp_all only [whole, HandlerMetadata.description]
  · rintro rfl
    exact ⟨rfl, rfl, rfl, rfl, rfl⟩

theorem standsFor_whole : c.StandsFor id parameter name kind (c.whole id parameter name kind) :=
  standsFor_iff.mpr rfl

theorem hasPlaceholder_iff : route.hasPlaceholder name = true ↔ name ∈ route.placeholders :=
  Std.ExtTreeSet.contains_iff_mem

/-- The binding tag that decides is the first in their order, in its first occurrence. -/
theorem binding?_eq_some_iff {web : WebTags} :
    binding? web parameter = some (tag, kind) ↔ ∃ place tagName others,
      Carries web place tagName kind ∧
      (∀ place' tagName' kind', Carries web place' tagName' kind' → place' < place →
        parameter.tags.contains tagName' = false) ∧
      parameter.tags.get tagName = tag :: others := by
  unfold binding?
  simp only [List.findSome?_eq_some_iff, Option.map_eq_none_iff, TagMap.first?_eq_none_iff,
    Option.map_eq_some_iff, TagMap.first?_eq_some_iff, carries_iff]
  constructor
  · rintro ⟨before, ⟨tagName, _⟩, after, hbindings, ⟨_, ⟨others, htag⟩, heq⟩, hbefore⟩
    cases heq
    refine ⟨before.length, tagName, others, by simp [hbindings], fun place' tagName' kind' h hlt => ?_,
      htag⟩
    rw [hbindings, List.getElem?_append_left hlt] at h
    exact hbefore _ (List.mem_of_getElem? h)
  · rintro ⟨place, tagName, others, hplace, hfirst, htag⟩
    obtain ⟨hlt, hget⟩ := List.getElem?_eq_some_iff.mp hplace
    refine ⟨(bindings web).take place, (tagName, kind), (bindings web).drop (place + 1), ?_,
      ⟨tag, ⟨others, htag⟩, rfl⟩, fun b hb => ?_⟩
    · rw [← hget, List.getElem_cons_drop, List.take_append_drop]
    · obtain ⟨place', hplace'⟩ := List.mem_iff_getElem?.mp hb
      obtain ⟨hlt', -⟩ := List.getElem?_eq_some_iff.mp hplace'
      rw [List.length_take, Nat.lt_min] at hlt'
      rw [List.getElem?_take_of_lt hlt'.1] at hplace'
      exact hfirst place' b.1 b.2 hplace' hlt'.1

/-- The name of a type leads to nothing in a model that does not have the type. -/
theorem bind_findType?_eq_none_iff {model : Model} {t : TypeRef} :
    t.qualifiedName?.bind model.findType? = none ↔
      ∀ name args, t = .declared name args → ∀ d ∈ model.decls, d.typeName? ≠ some name := by
  simp only [Option.bind_eq_none_iff, TypeRef.qualifiedName?_eq_some_iff,
    Model.findType?_eq_none_iff, forall_exists_index]

/-- The route has the last word about a parameter that nothing else is said about. -/
theorem IsPlain.classify_eq (h : c.IsPlain parameter) (id : DeclId) :
    c.classify id parameter = [c.whole id parameter parameter.name
      (if c.metadata.route.hasPlaceholder parameter.name then .path else .query)] := by
  rw [classify_of_untagged (binding?_eq_none_iff.mpr h.unbound) h.untagged, plainKind, if_neg]
  rw [Model.isInstanceOfAny_iff]
  rintro ⟨q, hq, hinherits⟩
  exact h.supplied q hq hinherits

/-- Nothing else is made of a parameter than what the first rule about it says. -/
theorem IsClassified.classify_eq (h : c.IsClassified id parameter ps) :
    c.classify id parameter = ps := by
  cases h with
  | bound hcarries hfirst htag hname hp =>
    rw [classify_of_binding (binding?_eq_some_iff.mpr ⟨_, _, _, hcarries, hfirst, htag⟩),
      namesOnWire_iff.mp hname, standsFor_iff.mp hp]
  | expanded h hids hmembers =>
    obtain ⟨d, hget, hk⟩ := h.typed
    rw [classify_of_isAttributeOf h, (Model.eq_members_iff hget hk).mpr ⟨hids, hmembers⟩]
  | unmodelled hunbound htagged hmissing hp =>
    rw [classify_of_unmodelled (binding?_eq_none_iff.mpr hunbound) htagged
      (bind_findType?_eq_none_iff.mpr hmissing) id, standsFor_iff.mp hp]
  | context hunbound huntagged hq hinherits hp =>
    rw [classify_of_untagged (binding?_eq_none_iff.mpr hunbound) huntagged, plainKind,
      if_pos (Model.isInstanceOfAny_iff.mpr ⟨_, hq, hinherits⟩), standsFor_iff.mp hp]
  | path hplain hroute hp =>
    rw [hplain.classify_eq, if_pos (hasPlaceholder_iff.mpr hroute), standsFor_iff.mp hp]
  | query hplain hroute hp =>
    rw [hplain.classify_eq, if_neg (fun h => hroute (hasPlaceholder_iff.mp h)), standsFor_iff.mp hp]

/-- What is made of a parameter is what the first rule about it says. -/
theorem isClassified_classify (c : Classification) (id : DeclId) (parameter : Declaration) :
    c.IsClassified id parameter (c.classify id parameter) := by
  cases hbinding : binding? c.vocabulary.web parameter with
  | some b =>
    obtain ⟨place, tagName, others, hcarries, hfirst, htag⟩ := binding?_eq_some_iff.mp hbinding
    rw [classify_of_binding hbinding]
    exact .bound hcarries hfirst htag (namesOnWire_iff.mpr rfl) standsFor_whole
  | none =>
    have hunbound : c.Unbound parameter := binding?_eq_none_iff.mp hbinding
    cases htagged : parameter.tags.contains c.vocabulary.web.modelAttribute with
    | true =>
      cases hfind : (c.context.resolve parameter.declaredType).qualifiedName?.bind
          c.model.findType? with
      | none =>
        rw [classify_of_unmodelled hbinding htagged hfind]
        exact .unmodelled hunbound htagged (bind_findType?_eq_none_iff.mp hfind) standsFor_whole
      | some e =>
        obtain ⟨info, hattribute⟩ := exists_isAttributeOf hbinding htagged hfind
        obtain ⟨d, hget, hk⟩ := hattribute.typed
        obtain ⟨hids, hmembers⟩ := Model.members_eq hget hk
        rw [classify_of_isAttributeOf hattribute]
        exact .expanded hattribute hids hmembers
    | false =>
      by_cases hcontext : ∃ q ∈ c.vocabulary.types.contextTypes,
          c.model.Inherits (c.context.resolve parameter.declaredType) q
      · rw [classify_of_untagged hbinding htagged, plainKind,
          if_pos (Model.isInstanceOfAny_iff.mpr hcontext)]
        obtain ⟨q, hq, hinherits⟩ := hcontext
        exact .context hunbound htagged hq hinherits standsFor_whole
      · have hplain : c.IsPlain parameter :=
          ⟨hunbound, htagged, fun q hq hinherits => hcontext ⟨q, hq, hinherits⟩⟩
        rw [hplain.classify_eq]
        by_cases hroute : parameter.name ∈ c.metadata.route.placeholders
        · rw [if_pos (hasPlaceholder_iff.mpr hroute)]
          exact .path hplain hroute standsFor_whole
        · rw [if_neg fun h => hroute (hasPlaceholder_iff.mp h)]
          exact .query hplain hroute standsFor_whole

/-! ## Larger routes -/

theorem IsPlain.withRoute (h : c.IsPlain parameter) (route : Route) :
    (c.withRoute route).IsPlain parameter :=
  ⟨h.unbound, h.untagged, h.supplied⟩

theorem StandsFor.withRoute (h : c.StandsFor id parameter name kind p) (route : Route) :
    (c.withRoute route).StandsFor id parameter name kind p :=
  ⟨h.named, h.carried, h.described, h.declared, h.typed⟩

/-- A larger route has no say in anything but a plain parameter that the old route did not have. -/
theorem IsClassified.withRoute (h : c.IsClassified id parameter ps)
    (hlarger : ∀ name ∈ c.metadata.route.placeholders, name ∈ route.placeholders) :
    (c.withRoute route).IsClassified id parameter ps ∨
      c.IsPlain parameter ∧ parameter.name ∉ c.metadata.route.placeholders ∧
        parameter.name ∈ route.placeholders := by
  cases h with
  | bound hcarries hfirst htag hname hp =>
    exact .inl (.bound hcarries hfirst htag hname (hp.withRoute route))
  | expanded h hids hmembers =>
    exact .inl (.expanded ⟨h.tagged, h.unbound, h.named, h.typed⟩ hids hmembers)
  | unmodelled hunbound htagged hmissing hp =>
    exact .inl (.unmodelled hunbound htagged hmissing (hp.withRoute route))
  | context hunbound huntagged hq hinherits hp =>
    exact .inl (.context hunbound huntagged hq hinherits (hp.withRoute route))
  | path hplain hroute hp =>
    exact .inl (.path (hplain.withRoute route) (hlarger _ hroute) (hp.withRoute route))
  | query hplain hroute hp =>
    by_cases hnew : parameter.name ∈ route.placeholders
    · exact .inr ⟨hplain, hroute, hnew⟩
    · exact .inl (.query (hplain.withRoute route) hnew (hp.withRoute route))

/-- **The precedence of classification.** What is made of a parameter is what the first rule about it
says. A larger route makes the same of it, unless nothing but the route says anything about the parameter
and only the larger one has its name: then the query parameter that was made of it becomes a path segment,
and stays the same otherwise. -/
theorem classify_precedence (c : Classification) (id : DeclId) (parameter : Declaration) :
    (∀ ps, c.classify id parameter = ps ↔ c.IsClassified id parameter ps) ∧
    ∀ route : Route, (∀ name ∈ c.metadata.route.placeholders, name ∈ route.placeholders) →
      (c.withRoute route).classify id parameter = c.classify id parameter ∨
        (c.IsPlain parameter ∧ parameter.name ∉ c.metadata.route.placeholders ∧
          parameter.name ∈ route.placeholders) ∧
        ∃ p, c.StandsFor id parameter parameter.name .query p ∧
          c.classify id parameter = [p] ∧
          (c.withRoute route).classify id parameter = [{ p with kind := .path }] := by
  refine ⟨fun ps => ⟨?_, IsClassified.classify_eq⟩, fun route hlarger => ?_⟩
  · rintro rfl
    exact isClassified_classify c id parameter
  · rcases (isClassified_classify c id parameter).withRoute hlarger with
      hsame | ⟨hplain, hold, hnew⟩
    · exact .inl hsame.classify_eq
    · have hpath : (c.withRoute route).IsClassified id parameter
          [(c.withRoute route).whole id parameter parameter.name .path] :=
        .path (hplain.withRoute route) hnew standsFor_whole
      exact .inr ⟨⟨hplain, hold, hnew⟩, c.whole id parameter parameter.name .query, standsFor_whole,
        (IsClassified.query hplain hold standsFor_whole).classify_eq, hpath.classify_eq⟩

/-- A parameter that no tag says anything about. -/
def widgetId : Declaration :=
  .ofParameter "id" (.primitive "long")

/-- A tag that gives a name in the second of its places alone. -/
def versionHeader : Tag :=
  ((∅ : Tag).set "value" (.str "")).set "name" (.str "X-Version")

/-- A parameter with two binding tags, which would be a model attribute without them. -/
def widgetVersion : Declaration :=
  (((Declaration.ofParameter "version" (.named "shop.Version")).withTag
    ({} : WebTags).requestPart ((∅ : Tag).set "value" (.str "part"))).withTag
    ({} : WebTags).requestHeader versionHeader).withTag ({} : WebTags).modelAttribute ∅

/-- The classification of both parameters under a route without placeholders. -/
def widgetClassification : Classification where
  model :=
    { decls := [widgetId, widgetVersion]
      consistent := fault?_eq_none_iff.mp (by decide +kernel) }
  filter := ⟨.tagged, {}⟩

/-- A route that has the names of both parameters makes a path segment of the one without tags. The other
is a request header, under the name that its tag gives. -/
theorem widgetRoute_decides : ∃ route : Route,
    (∀ name ∈ widgetClassification.metadata.route.placeholders, name ∈ route.placeholders) ∧
    (∃ p, p.name = "id" ∧ p.kind = .query ∧ widgetClassification.classify 0 widgetId = [p] ∧
      (widgetClassification.withRoute route).classify 0 widgetId = [{ p with kind := .path }]) ∧
    ∃ p, p.name = "X-Version" ∧ p.kind = .header ∧
      widgetClassification.classify 1 widgetVersion = [p] ∧
      (widgetClassification.withRoute route).classify 1 widgetVersion = [p] := by
  have hlarger : ∀ name ∈ widgetClassification.metadata.route.placeholders,
      name ∈ (Route.ofTemplates ["/widgets/\x7bid\x7d/\x7bversion\x7d"]).placeholders := by
    intro name hname
    simp [widgetClassification] at hname
  refine ⟨_, hlarger, ?_, ?_⟩
  · rcases (classify_precedence widgetClassification 0 widgetId).2 _ hlarger with
      hsame | ⟨-, p, hp, hquery, hpath⟩
    · have hkinds := congrArg (List.map (·.kind)) hsame
      exact absurd hkinds (by decide +kernel)
    · exact ⟨p, hp.named, hp.carried, hquery, hpath⟩
  · obtain ⟨hiff, hroute⟩ := classify_precedence widgetClassification 1 widgetVersion
    have hfirst : ∀ place' tagName' kind', Carries {} place' tagName' kind' → place' < 2 →
        widgetVersion.tags.contains tagName' = false := by
      intro place' tagName' kind' hcarries hlt
      cases hcarries with
      | requestParam => decide +kernel
      | pathVariable => decide +kernel
      | _ => exact absurd hlt (by decide)
    have htag : widgetVersion.tags.get ({} : WebTags).requestHeader = [versionHeader] := rfl
    have hname : NamesOnWire versionHeader "version" "X-Version" := namesOnWire_iff.mpr (by decide +kernel)
    have hheader : widgetClassification.classify 1 widgetVersion =
        [widgetClassification.whole 1 widgetVersion "X-Version" .header] :=
      (hiff _).mpr (.bound .requestHeader hfirst htag hname standsFor_whole)
    rcases hroute _ hlarger with hsame | ⟨⟨hplain, -⟩, -⟩
    · exact ⟨_, rfl, rfl, hheader, hsame.trans hheader⟩
    · -- a parameter with a binding tag is not left to the route
      have hunbound := hplain.unbound _ _ _ .requestHeader
      exact absurd hunbound (by decide +kernel)

end Classification

end ApiDescription
