import ApiDescription.Parameter.Classification
import ApiDescription.Proofs.Schema.DataTypes

/-!
# Model attributes and the accessors of their types

A model attribute is taken apart into the members of its type that the filter accepts. The schema of that
type lists accepted members too, but leaves out those that hold no value: a nested type with a binding
tag is accepted, and is no accessor. So a model attribute may have parameters that its schema has no
accessors for, and never the other way around.

Results:
* `carries_iff`, `binding?_eq_none_iff`: which tags say where a parameter is carried, and that none does.
* `classify_of_isAttributeOf`: what a model attribute is taken apart into; `classify_eq_whole_or`: any
  other parameter stays whole.
* `declaration_ne_none_of_mem_classify`: either has a declaration behind it.
* `classify_eq_accessors_iff`: the parameters of a model attribute are the accessors of its type iff no
  type and no parameter among the members of the type is accepted; `nestedType_expanded` is a nested type
  that becomes a query parameter.
-/

namespace ApiDescription

namespace Classification

/-- The tags that say where a parameter is carried. Each has its place in their order of precedence, and
stands for a kind. -/
inductive Carries (web : WebTags) : Nat → String → ParameterKind → Prop
  | requestParam : Carries web 0 web.requestParam .query
  | pathVariable : Carries web 1 web.pathVariable .path
  | requestHeader : Carries web 2 web.requestHeader .header
  | cookieValue : Carries web 3 web.cookieValue .cookie
  | matrixVariable : Carries web 4 web.matrixVariable .matrix
  | requestPart : Carries web 5 web.requestPart .form

/-- The list that is searched has the tags in their places. -/
theorem carries_iff {web : WebTags} {place : Nat} {tagName : String} {kind : ParameterKind} :
    Carries web place tagName kind ↔ (bindings web)[place]? = some (tagName, kind) := by
  constructor
  · intro h
    cases h <;> rfl
  · intro h
    match place with
    | 0 | 1 | 2 | 3 | 4 | 5 =>
      cases Option.some.inj h
      constructor
    | n + 6 => cases h

/-- No tag says where a parameter is carried. -/
def Unbound (c : Classification) (parameter : Declaration) : Prop :=
  ∀ place tagName kind, Carries c.vocabulary.web place tagName kind →
    parameter.tags.contains tagName = false

theorem binding?_eq_none_iff {c : Classification} {parameter : Declaration} :
    binding? c.vocabulary.web parameter = none ↔ c.Unbound parameter := by
  unfold binding?
  rw [List.findSome?_eq_none_iff]
  simp only [Option.map_eq_none_iff, TagMap.first?_eq_none_iff, Unbound, carries_iff]
  constructor
  · intro h place tagName kind hplace
    exact h (tagName, kind) (List.mem_of_getElem? hplace)
  · intro h b hb
    obtain ⟨place, hplace⟩ := List.mem_iff_getElem?.mp hb
    exact h place b.1 b.2 hplace

/-- A parameter is a model attribute of the type that stands at a position. -/
structure IsAttributeOf (c : Classification) (parameter : Declaration) (typeId : DeclId)
    (info : TypeInfo) : Prop where
  tagged : parameter.tags.contains c.vocabulary.web.modelAttribute = true
  unbound : c.Unbound parameter
  named : (c.context.resolve parameter.declaredType).qualifiedName? = some info.qualifiedName
  typed : ∃ d, c.model.get? typeId = some d ∧ d.kind = .type info

variable {c : Classification} {typeId : DeclId} {parameter : Declaration} {info : TypeInfo}

/-- The query parameter that a member of the type of a model attribute makes. -/
def ofMember (c : Classification) (e : DeclId × Declaration) : RequestParameter where
  name := e.2.name
  kind := .query
  description := ""
  declaration := some e.1
  type := some (c.context.resolve e.2.declaredType)

/-- A model attribute is taken apart into the accepted members of its type. -/
theorem classify_of_isAttributeOf (h : c.IsAttributeOf parameter typeId info) (id : DeclId) :
    c.classify id parameter =
      ((c.model.members typeId).filter fun e => c.filter.accepts c.model e.2).map c.ofMember := by
  obtain ⟨d, hget, hk⟩ := h.typed
  have hfind : c.model.findType? info.qualifiedName = some (typeId, d) :=
    Model.findType?_eq_some_iff.mpr
      ⟨hget, Declaration.typeName?_eq_some_iff.mpr ⟨info, hk, rfl⟩⟩
  unfold classify
  rw [binding?_eq_none_iff.mpr h.unbound]
  simp only [h.tagged, if_true]
  unfold expand
  rw [h.named, Option.bind_some, hfind]
  rfl

/-- What is taken apart is a model attribute of a type of the model. -/
theorem exists_isAttributeOf (hunbound : binding? c.vocabulary.web parameter = none)
    (htagged : parameter.tags.contains c.vocabulary.web.modelAttribute = true)
    {e : DeclId × Declaration}
    (hfind : (c.context.resolve parameter.declaredType).qualifiedName?.bind c.model.findType? =
      some e) : ∃ info, c.IsAttributeOf parameter e.1 info := by
  obtain ⟨name, hname, he⟩ := Option.bind_eq_some_iff.mp hfind
  obtain ⟨hget, htype⟩ := Model.findType?_eq_some_iff.mp he
  obtain ⟨info, hk, rfl⟩ := Declaration.typeName?_eq_some_iff.mp htype
  exact ⟨info, htagged, binding?_eq_none_iff.mp hunbound, hname, e.2, hget, hk⟩

theorem classify_of_unmodelled (hunbound : binding? c.vocabulary.web parameter = none)
    (htagged : parameter.tags.contains c.vocabulary.web.modelAttribute = true)
    (hmissing : (c.context.resolve parameter.declaredType).qualifiedName?.bind c.model.findType? =
      none) (id : DeclId) :
    c.classify id parameter = [c.whole id parameter parameter.name .query] := by
  simp only [classify, hunbound, htagged, if_true, expand, hmissing]

theorem classify_of_untagged (hunbound : binding? c.vocabulary.web parameter = none)
    (huntagged : parameter.tags.contains c.vocabulary.web.modelAttribute = false) (id : DeclId) :
    c.classify id parameter = [c.whole id parameter parameter.name (c.plainKind parameter)] := by
  simp only [classify, hunbound, huntagged, Bool.false_eq_true, if_false]

/-- A parameter is classified as a whole unless it is a model attribute of a type of the model. -/
theorem classify_eq_whole_or (c : Classification) (id : DeclId) (parameter : Declaration) :
    (∃ name kind, c.classify id parameter = [c.whole id parameter name kind]) ∨
      ∃ typeId info, c.IsAttributeOf parameter typeId info := by
  cases hbinding : binding? c.vocabulary.web parameter with
  | some b => exact .inl ⟨_, _, classify_of_binding hbinding id⟩
  | none =>
    cases htagged : parameter.tags.contains c.vocabulary.web.modelAttribute with
    | false => exact .inl ⟨_, _, classify_of_untagged hbinding htagged id⟩
    | true =>
      cases hfind : (c.context.resolve parameter.declaredType).qualifiedName?.bind
          c.model.findType? with
      | none => exact .inl ⟨_, _, classify_of_unmodelled hbinding htagged hfind id⟩
      | some e => exact .inr ⟨e.1, exists_isAttributeOf hbinding htagged hfind⟩

/-- Whatever a parameter is classified as has a declaration behind it. -/
theorem declaration_ne_none_of_mem_classify {id : DeclId} {p : RequestParameter}
    (hp : p ∈ c.classify id parameter) : p.declaration ≠ none := by
  rcases classify_eq_whole_or c id parameter with ⟨name, kind, hwhole⟩ | ⟨typeId, info, hattribute⟩
  · rw [hwhole] at hp
    obtain rfl := List.mem_singleton.mp hp
    exact nofun
  · rw [classify_of_isAttributeOf hattribute] at hp
    obtain ⟨e, -, rfl⟩ := List.mem_map.mp hp
    exact nofun

/-- The declarations behind the parameters of a model attribute. -/
theorem filterMap_declaration_classify (h : c.IsAttributeOf parameter typeId info) (id : DeclId) :
    (c.classify id parameter).filterMap (·.declaration) =
      ((c.model.members typeId).filter fun e => c.filter.accepts c.model e.2).map (·.1) := by
  rw [classify_of_isAttributeOf h, List.filterMap_map]
  exact congrFun List.filterMap_eq_map _

/-- Which members of a type may hold a value can be read off their positions. -/
theorem any_holdsValue_of_mem_members (h : c.IsAttributeOf parameter typeId info)
    {e : DeclId × Declaration} (he : e ∈ c.model.members typeId) :
    (c.model.get? e.1).any DataType.holdsValue = DataType.holdsValue e.2 := by
  obtain ⟨d, hget, hk⟩ := h.typed
  rw [(Model.members_eq hget hk).2 e he, Option.any_some]

/-- The accessors of the type stand for those parameters whose member may hold a value. -/
theorem map_declaration_accessorsAt_of_isAttributeOf (h : c.IsAttributeOf parameter typeId info)
    (id : DeclId) :
    (DataType.accessorsAt c.filter c.model typeId).map (·.declaration) =
      ((c.classify id parameter).filterMap (·.declaration)).filter
        fun member => (c.model.get? member).any DataType.holdsValue := by
  rw [DataType.map_declaration_accessorsAt, filterMap_declaration_classify h, List.filter_map,
    List.filter_filter]
  refine congrArg (List.map fun e : DeclId × Declaration => e.1) (List.filter_congr fun e he => ?_)
  rw [Function.comp_apply, any_holdsValue_of_mem_members h he, Bool.and_comm]

/-- All parameters have members that may hold a value iff no other member is accepted. -/
theorem forall_holdsValue_iff (h : c.IsAttributeOf parameter typeId info) (id : DeclId) :
    (∀ member ∈ (c.classify id parameter).filterMap (·.declaration),
      (c.model.get? member).any DataType.holdsValue = true) ↔
    ∀ e ∈ c.model.members typeId, DataType.holdsValue e.2 = false →
      c.filter.accepts c.model e.2 = false := by
  rw [filterMap_declaration_classify h]
  constructor
  · intro hall e he hno
    by_contra haccepts
    have hm : e ∈ (c.model.members typeId).filter fun e => c.filter.accepts c.model e.2 :=
      List.mem_filter.mpr ⟨he, by simpa using haccepts⟩
    have hholds := hall e.1 (List.mem_map_of_mem hm)
    rw [any_holdsValue_of_mem_members h he, hno] at hholds
    cases hholds
  · intro hall member hm
    obtain ⟨e, he, rfl⟩ := List.mem_map.mp hm
    obtain ⟨hmember, haccepts⟩ := List.mem_filter.mp he
    rw [any_holdsValue_of_mem_members h hmember]
    by_contra hno
    rw [hall e hmember (by simpa using hno)] at haccepts
    cases haccepts

end Classification

open Classification in
/-- **The parameters of a model attribute and the accessors of its type.** Let a parameter be a model
attribute of a type that is no enumeration. It makes query parameters alone, each with a declaration. The
accessors of the type stand for those of these declarations that may hold a value, in the same order. So
both agree iff no member that is a type or a parameter is accepted. -/
theorem classify_eq_accessors_iff {c : Classification} {typeId : DeclId} {parameter : Declaration}
    {info : TypeInfo} (h : c.IsAttributeOf parameter typeId info) (hc : info.category ≠ .enumType)
    (id : DeclId) :
    ∃ accessors, DataType.ofModel c.filter c.model typeId =
        .ok ⟨typeId, info.qualifiedName, .complex accessors⟩ ∧
      (∀ p ∈ c.classify id parameter, p.kind = .query ∧ p.declaration.isSome) ∧
      accessors.map (·.declaration) = ((c.classify id parameter).filterMap (·.declaration)).filter
        (fun member => (c.model.get? member).any DataType.holdsValue) ∧
      ((c.classify id parameter).filterMap (·.declaration) = accessors.map (·.declaration) ↔
        ∀ e ∈ c.model.members typeId, DataType.holdsValue e.2 = false →
          c.filter.accepts c.model e.2 = false) := by
  obtain ⟨d, hget, hk⟩ := h.typed
  have haccessors := map_declaration_accessorsAt_of_isAttributeOf h id
  refine ⟨DataType.accessorsAt c.filter c.model typeId, ?_, fun p hp => ?_, haccessors, ?_⟩
  · rw [DataType.ofModel_of_kind hget hk, if_neg hc]
  · rw [classify_of_isAttributeOf h] at hp
    obtain ⟨e, -, rfl⟩ := List.mem_map.mp hp
    exact ⟨rfl, rfl⟩
  · -- a list is what a filter leaves of it iff the filter drops nothing
    rw [haccessors, eq_comm, List.filter_eq_self]
    exact forall_holdsValue_iff h id

/-- The parameter that takes the search form. -/
def searchParameter : Declaration :=
  (Declaration.ofParameter "search" (.named "shop.Search")).withTag ({} : WebTags).modelAttribute ∅

/-- The search form as a type. -/
def searchInfo : TypeInfo where
  qualifiedName := "shop.Search"
  members := [1, 2]

/-- A search form with a text and a nested type for its pages, and a parameter that takes the form. -/
def searchDeclarations (page : Declaration) : List Declaration :=
  [{ name := "Search"
     declaredType := .named "shop.Search"
     kind := .type searchInfo },
   .ofField "text" (.named "java.lang.String"),
   page,
   searchParameter]

/-- What the classification of a parameter depends on that takes the search form. -/
def searchClassification (page : Declaration) (h : fault? (searchDeclarations page) = none) :
    Classification where
  model :=
    { decls := searchDeclarations page
      consistent := fault?_eq_none_iff.mp h }
  filter := ⟨.field, {}⟩

theorem isAttributeOf_search (page : Declaration) (h : fault? (searchDeclarations page) = none) :
    (searchClassification page h).IsAttributeOf searchParameter 0 searchInfo where
  tagged := by
    have htagged : searchParameter.tags.contains ({} : WebTags).modelAttribute = true := by
      decide +kernel
    exact htagged
  unbound := by
    have hnone : (Classification.binding? {} searchParameter).isNone := by decide +kernel
    exact Classification.binding?_eq_none_iff.mp (Option.isNone_iff_eq_none.mp hnone)
  named := congrArg TypeRef.qualifiedName? (TypeContext.resolve_declared ∅ "shop.Search" [])
  typed := ⟨_, rfl, rfl⟩

/-- The search form whose nested type has no tags. -/
def plainSearch : Classification :=
  searchClassification (.ofType "shop.Search.Page") (by decide +kernel)

/-- The search form whose nested type has a binding tag. -/
def boundSearch : Classification :=
  searchClassification ((Declaration.ofType "shop.Search.Page").withTag
    "javax.xml.bind.annotation.XmlRootElement" ∅) (by decide +kernel)

/-- Without a tag on the nested type the query parameters are the accessors: the text alone. -/
theorem plainSearch_agrees : plainSearch.IsAttributeOf searchParameter 0 searchInfo ∧
    searchInfo.category ≠ .enumType ∧
    ∃ accessors, DataType.ofModel plainSearch.filter plainSearch.model 0 =
        .ok ⟨0, "shop.Search", .complex accessors⟩ ∧
      (plainSearch.classify 3 searchParameter).filterMap (·.declaration) =
        accessors.map (·.declaration) := by
  have h : plainSearch.IsAttributeOf searchParameter 0 searchInfo := isAttributeOf_search _ _
  have hc : searchInfo.category ≠ .enumType := by decide
  obtain ⟨accessors, hdata, -, -, hagree⟩ := classify_eq_accessors_iff h hc 3
  exact ⟨h, hc, accessors, hdata, hagree.mpr (by decide +kernel)⟩

/-- With a binding tag on the nested type there is a query parameter for it, but no accessor. -/
theorem nestedType_expanded : boundSearch.IsAttributeOf searchParameter 0 searchInfo ∧
    searchInfo.category ≠ .enumType ∧
    (boundSearch.classify 3 searchParameter).filterMap (·.declaration) = [1, 2] ∧
    ∃ accessors, DataType.ofModel boundSearch.filter boundSearch.model 0 =
        .ok ⟨0, "shop.Search", .complex accessors⟩ ∧
      accessors.map (·.declaration) = [1] ∧
      (boundSearch.classify 3 searchParameter).filterMap (·.declaration) ≠
        accessors.map (·.declaration) := by
  have h : boundSearch.IsAttributeOf searchParameter 0 searchInfo := isAttributeOf_search _ _
  have hparameters : (boundSearch.classify 3 searchParameter).filterMap (·.declaration) = [1, 2] := by
    rw [Classification.filterMap_declaration_classify h]
    decide +kernel
  have haccessors : (DataType.accessorsAt boundSearch.filter boundSearch.model 0).map (·.declaration) =
      [1] := by
    decide +kernel
  refine ⟨h, by decide, hparameters, DataType.accessorsAt boundSearch.filter boundSearch.model 0, rfl,
    haccessors, ?_⟩
  rw [hparameters, haccessors]
  decide

end ApiDescription
