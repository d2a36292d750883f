import ApiDescription.Proofs.Parameter.Expansion
import ApiDescription.Proofs.Synthesis.Parameters

/-!
# Where request parameters come from

A request parameter of a descriptor stands for a parameter of the method as a whole, for an accepted
member of the type of a model attribute, or for a documented header. Only the first two have a
declaration behind them, and their types are the declared ones with the variables in force filled in.

Results:
* `origin_of_mem_candidates`, `origin_of_mem_requestParameters`: every candidate, and so every request
  parameter, has one of these origins.
-/

namespace ApiDescription.Synthesizer

/-- How a request parameter of a method comes about. -/
inductive Origin (s : Synthesizer) (context : TypeContext) (d : Declaration)
    (ancestors : List Declaration) (parameters : List (DeclId × Declaration)) :
    RequestParameter → Prop where
  /-- A parameter that does not take the body stands for itself. -/
  | whole {id : DeclId} {q : Declaration} (hq : (id, q) ∈ parameters)
      (hbody : takesBody s.vocabulary.web q = false) (name : String) (kind : ParameterKind) :
      Origin s context d ancestors parameters
        ((s.classification context d ancestors).whole id q name kind)
  /-- A model attribute is replaced by the accepted members of its type. -/
  | member {id : DeclId} {q : Declaration} (hq : (id, q) ∈ parameters)
      (hbody : takesBody s.vocabulary.web q = false) {typeId : DeclId} {info : TypeInfo}
      (hattribute : (s.classification context d ancestors).IsAttributeOf q typeId info)
      {e : DeclId × Declaration} (he : e ∈ s.model.members typeId)
      (haccepts : s.filter.accepts s.model e.2 = true) :
      Origin s context d ancestors parameters ((s.classification context d ancestors).ofMember e)
  /-- A header is documented. -/
  | documented (name description : String) :
      Origin s context d ancestors parameters { name, kind := .header, description }

variable {s : Synthesizer} {context : TypeContext} {id : DeclId} {d : Declaration}
  {ancestors : List Declaration} {parameters : List (DeclId × Declaration)} {p : RequestParameter}

theorem origin_of_mem_classify {q : Declaration} (hq : (id, q) ∈ parameters)
    (hbody : takesBody s.vocabulary.web q = false)
    (hp : p ∈ (s.classification context d ancestors).classify id q) :
    s.Origin context d ancestors parameters p := by
  rcases Classification.classify_eq_whole_or (s.classification context d ancestors) id q with
    ⟨name, kind, hwhole⟩ | ⟨typeId, info, hattribute⟩
  · rw [hwhole] at hp
    obtain rfl := List.mem_singleton.mp hp
    exact .whole hq hbody name kind
  · rw [Classification.classify_of_isAttributeOf hattribute] at hp
    obtain ⟨e, he, rfl⟩ := List.mem_map.mp hp
    obtain ⟨hmember, haccepts⟩ := List.mem_filter.mp he
    exact .member hq hbody hattribute hmember haccepts

theorem origin_of_mem_candidates (hp : p ∈ s.candidates context d ancestors parameters) :
    s.Origin context d ancestors parameters p := by
  rcases List.mem_append.mp hp with hclassified | hdocumented
  · obtain ⟨⟨id, q⟩, hq, hp⟩ := List.mem_flatMap.mp hclassified
    obtain ⟨hmem, hbody⟩ := List.mem_filter.mp hq
    exact origin_of_mem_classify hmem (by simpa using hbody) hp
  · obtain ⟨⟨name, description⟩, -, rfl⟩ := List.mem_map.mp hdocumented
    exact .documented name description

/-- Every request parameter of a descriptor has an origin. -/
theorem origin_of_mem_requestParameters
    (hp : p ∈ (s.descriptor context id d ancestors parameters).requestParameters) :
    s.Origin context d ancestors parameters p :=
  origin_of_mem_candidates (List.mem_of_find?_eq_some (mem_requestParameters_descriptor_iff.mp hp))

end ApiDescription.Synthesizer
