import ApiDescription.Proofs.ReturnType.Hints
import ApiDescription.Proofs.Synthesis.Origins
import ApiDescription.Proofs.TypeRef.Resolution

/-!
# Type variables of a descriptor

Every type that a descriptor takes from a declaration goes through the context of its handler, be it the
type of a parameter, of a member of a model attribute or of the return value. So the variables that are
left are those that the context itself leaves open. Only a type hint is taken as it is written.

Results:
* `settled_of_origin`: the type of a request parameter is settled, whatever its origin.
* `settled_unwrapped`: so is the return type once it is unwrapped.
* `describe_settled`: the types of a description are settled.
-/

namespace ApiDescription

open TypeContext

/-- The unwrapped return type is settled, also where it is the documented wrapped type. -/
theorem ReturnType.settled_unwrapped (model : Model) (types : WellKnownTypes) (r : ReturnType) :
    r.context.Settled (r.unwrapped model types) :=
  settled_resolve r.context _

/-- Without a hint the body that is answered has a settled type. -/
theorem ReturnType.settled_representation {model : Model} {types : WellKnownTypes} {r : ReturnType}
    (hhint : ∀ tag, r.hint = some tag → ¬ tag.GivesHint types) {t : TypeRef}
    (ht : (r.representation model types).1.type? = some t) : r.context.Settled t := by
  rw [representation_of_absent (hintInForce_eq_absent_iff.mpr hhint)] at ht
  obtain ⟨-, rfl⟩ := type?_represent_eq_some_iff.mp ht
  exact r.settled_unwrapped model types

namespace Synthesizer

variable {s : Synthesizer} {context : TypeContext} {id : DeclId} {d : Declaration}
  {ancestors : List Declaration} {parameters : List (DeclId × Declaration)}

theorem settled_of_origin {p : RequestParameter} (h : s.Origin context d ancestors parameters p)
    {t : TypeRef} (ht : p.type = some t) : context.Settled t := by
  cases h with
  | whole _ _ name kind =>
    obtain rfl := Option.some.inj ht
    exact settled_resolve context _
  | member _ _ _ _ _ =>
    obtain rfl := Option.some.inj ht
    exact settled_resolve context _
  | documented name description => cases ht

theorem settled_entity {e : RequestParameter}
    (he : (s.descriptor context id d ancestors parameters).entity = some e) :
    ∃ t, e.type = some t ∧ context.Settled t := by
  obtain ⟨_, i, q, _, -, -, -, rfl⟩ := entity_descriptor_eq_some_iff.mp he
  exact ⟨_, rfl, settled_resolve context q.declaredType⟩

theorem representation_descriptor :
    (s.descriptor context id d ancestors parameters).representation =
      ((returnType s.vocabulary context d ancestors).representation s.model
        s.vocabulary.types).1 := by
  rw [descriptor_eq, Descriptor.addParameters_eq]
  rfl

end Synthesizer

/-- **The types of a description are settled.** A variable that occurs in the type of the entity or of
a request parameter is unbound in the context of the handler or lies on a cycle of dependencies. So is
a variable of the body, unless a type hint of the handler is in force. -/
theorem describe_settled {s : Synthesizer} {handler : Handler} {r : Descriptor}
    (h : s.describe handler = .ok r) :
    (∀ e, r.entity = some e → ∃ t, e.type = some t ∧ handler.context.Settled t) ∧
    (∀ p ∈ r.requestParameters, ∀ t, p.type = some t → handler.context.Settled t) ∧
    ∃ d, s.model.get? handler.method = some d ∧
      ((∀ tag, d.tags.first? s.vocabulary.metadata.typeHint = some tag →
          ¬ tag.GivesHint s.vocabulary.types) →
        ∀ t, r.representation.type? = some t → handler.context.Settled t) := by
  obtain ⟨d, ancestors, parameters, hres, rfl⟩ := Synthesizer.describe_eq_ok_iff.mp h
  refine ⟨fun e he => Synthesizer.settled_entity he, fun p hp t ht => ?_, d, hres.method,
    fun hhint t ht => ?_⟩
  · exact Synthesizer.settled_of_origin (Synthesizer.origin_of_mem_requestParameters hp) ht
  · rw [Synthesizer.representation_descriptor] at ht
    exact ReturnType.settled_representation hhint ht

/-- A method that takes the body and a filter and is documented to answer with a page, all in terms of
variables. -/
def storeDeclarations : List Declaration :=
  [{ name := "store"
     declaredType := .void
     docs := .push ∅ "returnWrapped" "shop.Page"
     kind := .method [1, 2] },
   (Declaration.ofParameter "item" (.declared "List" [.var "T"])).withTag
     ({} : WebTags).requestBody ∅,
   (Declaration.ofParameter "filter" (.named "shop.Filter")).withTag ({} : WebTags).modelAttribute ∅,
   { name := "Filter"
     declaredType := .named "shop.Filter"
     kind := .type { qualifiedName := "shop.Filter", members := [4] } },
   .ofField "key" (.var "T"),
   { name := "Page"
     declaredType := .declared "shop.Page" [.var "C"]
     kind := .type { qualifiedName := "shop.Page" } }]

/-- The synthesizer of the declarations of a store. -/
def storeSynthesizer : Synthesizer where
  model :=
    { decls := storeDeclarations
      consistent := fault?_eq_none_iff.mp (by decide +kernel) }
  vocabulary := {}
  filter := ⟨.field, {}⟩

/-- The method of the store where `T` stands for arrays of an unbound variable, and `C` for boxes of
itself. -/
def storeHandler : Handler where
  method := 0
  context := ((∅ : TypeContext).bind "T" (.array (.var "U"))).bind "C" (.declared "shop.Box" [.var "C"])

theorem store_settled : ∃ r, storeSynthesizer.describe storeHandler = .ok r ∧
    (r.entity.bind (·.type)).map TypeRef.display = some "List<U[]>" ∧
    r.requestParameters.map (fun p => (p.name, p.type.map TypeRef.display)) =
      [("key", some "U[]")] ∧
    r.representation.type?.map TypeRef.display = some "shop.Page<shop.Box<C>>" ∧
    (∀ e, r.entity = some e → ∃ t, e.type = some t ∧ storeHandler.context.Settled t) ∧
    ∀ t, r.representation.type? = some t → storeHandler.context.Settled t := by
  have hr : (storeSynthesizer.describe storeHandler).toOption.map (fun r =>
      ((r.entity.bind (·.type)).map TypeRef.display,
        r.requestParameters.map (fun p => (p.name, p.type.map TypeRef.display)),
        r.representation.type?.map TypeRef.display)) =
      some (some "List<U[]>", [("key", some "U[]")], some "shop.Page<shop.Box<C>>") := by
    decide +kernel
  obtain ⟨r, hsome, hparts⟩ := Option.map_eq_some_iff.mp hr
  have h : storeSynthesizer.describe storeHandler = .ok r := toOption_eq_some_iff.mp hsome
  obtain ⟨hentity, -, d, hget, hbody⟩ := describe_settled h
  obtain ⟨hitem, hrest⟩ := Prod.mk.inj hparts
  obtain ⟨hkey, hpage⟩ := Prod.mk.inj hrest
  -- the method has no type hint
  obtain rfl := Option.some.inj hget
  exact ⟨r, h, hitem, hkey, hpage, hentity, hbody fun tag ht => by cases ht⟩

end ApiDescription
