import ApiDescription.Proofs.ReturnType.Unwrapping
import ApiDescription.Proofs.TypeRef.Cycles

/-!
# What is transported when a wrapped type is documented

A documented wrapped type stands for itself without arguments. What is transported is the type that the
declaration of that name declares, with the variables in force filled in. For a type that declares
itself without arguments both are the same. The declaration of a generic type may declare the type with
its own variables as arguments: then these arguments are kept, and a variable of the handler that happens
to have the same name is filled in for them.

Results:
* `TypeContext.resolve_var_eq_named_iff`: a variable resolves to a raw type iff its chain ends there.
* `unwrapped_of_wraps`: the unwrapped type is the resolved declared type of the wrapped declaration.
* `yieldsRaw_iff`: the wrapped type itself is transported iff its declaration resolves to it.
* `unwrapped_wrapped`: when a documented wrapped type is transported as it is.
-/

namespace ApiDescription

open Relation

/-! ## Raw types -/

namespace TypeContext

variable {context : TypeContext} {t : TypeRef} {x y q : String}

@[simp] theorem resolve_named (context : TypeContext) (q : String) :
    context.resolve (.named q) = .named q :=
  resolve_declared context q []

/-- Only a raw type and a variable resolve to a raw type. -/
theorem resolve_eq_named_iff :
    context.resolve t = .named q ↔
      t = .named q ∨ ∃ x, t = .var x ∧ context.resolve (.var x) = .named q := by
  cases t with
  | declared name args => simp [resolve_declared, TypeRef.named]
  | array element => simp [resolve_array, TypeRef.named]
  | var x => simp [TypeRef.named]
  | _ =>
    rw [resolve_eq_bind, TypeRef.bind]
    simp [TypeRef.named]

/-- A chain that ends at a raw type resolves to it. -/
theorem resolve_var_of_reaches_named (context : TypeContext) {x y : String}
    (hpath : ReflTransGen context.Follows x y) (hend : context.lookup? y = some (.named q)) :
    context.resolve (.var x) = .named q := by
  by_cases hxy : x = y
  · subst hxy
    rw [resolve_var, hend]
    exact resolve_named _ q
  · -- behind the last visit of `x` the chain is one of the context in which `x` is free
    obtain ⟨z, hz, hrest⟩ := exists_last_step hpath hxy
    rw [← follows_free] at hrest
    have hend' : (context.free x).lookup? y = some (.named q) := by
      rw [lookup?_free, if_neg hxy, hend]
    rw [resolve_var_of_follows hz]
    exact resolve_var_of_reaches_named (context.free x) hrest hend'
termination_by context.bindings.size
decreasing_by exact size_free_lt hz

theorem exists_reaches_of_resolve_var_eq_named (context : TypeContext) {x : String}
    (h : context.resolve (.var x) = .named q) :
    ∃ y, ReflTransGen context.Follows x y ∧ context.lookup? y = some (.named q) := by
  cases hbound : context.lookup? x with
  | none =>
    rw [resolve_var, hbound] at h
    cases h
  | some bound =>
    rw [resolve_var, hbound] at h
    rcases resolve_eq_named_iff.mp h with rfl | ⟨w, rfl, hw⟩
    · exact ⟨x, .refl, hbound⟩
    · obtain ⟨y, hpath, hend⟩ := exists_reaches_of_resolve_var_eq_named (context.free x) hw
      rw [lookup?_free] at hend
      split at hend
      · cases hend
      · exact ⟨y, .head hbound (reaches_of_reaches_free hpath), hend⟩
termination_by context.bindings.size
decreasing_by exact size_free_lt hbound

/-- **A variable resolves to a raw type iff its chain ends there.** -/
theorem resolve_var_eq_named_iff :
    context.resolve (.var x) = .named q ↔
      ∃ y, ReflTransGen context.Follows x y ∧ context.lookup? y = some (.named q) :=
  ⟨exists_reaches_of_resolve_var_eq_named context,
    fun ⟨_, hpath, hend⟩ => resolve_var_of_reaches_named context hpath hend⟩

end TypeContext

namespace ReturnType

variable {model : Model} {types : WellKnownTypes} {r : ReturnType} {d : Declaration} {q : String}

/-- The type of a name is transported without arguments. -/
structure YieldsRaw (model : Model) (types : WellKnownTypes) (r : ReturnType) (q : String) : Prop where
  unwrapped : r.unwrapped model types = .named q
  represented : ∃ answer, Represents types r.doc (.named q) answer ∧
    r.representation model types = (answer, [])

theorem unwrapped_of_wraps (h : r.Wraps model d) :
    r.unwrapped model types = r.context.resolve d.declaredType :=
  unwrapped_eq_iff.mpr ⟨d.declaredType, .wrapped h, rfl⟩

/-- Without a hint the unwrapped type is represented. -/
theorem represents_unwrapped (model : Model)
    (hhint : ∀ tag, r.hint = some tag → ¬ tag.GivesHint types) :
    ∃ answer, Represents types r.doc (r.unwrapped model types) answer ∧
      r.representation model types = (answer, []) :=
  ⟨_, represent_eq_iff.mp rfl, representation_of_absent (hintInForce_eq_absent_iff.mpr hhint)⟩

/-- The wrapped type itself is transported iff its declaration resolves to it. -/
theorem yieldsRaw_iff (hhint : ∀ tag, r.hint = some tag → ¬ tag.GivesHint types)
    (hwraps : r.Wraps model d) :
    r.YieldsRaw model types q ↔ r.context.resolve d.declaredType = .named q := by
  have hunwrapped : r.unwrapped model types = r.context.resolve d.declaredType :=
    unwrapped_of_wraps hwraps
  constructor
  · intro hraw
    rw [← hunwrapped, hraw.unwrapped]
  · intro hresolve
    have hnamed : r.unwrapped model types = .named q := hunwrapped.trans hresolve
    exact ⟨hnamed, hnamed ▸ represents_unwrapped model hhint⟩

/-- A type is raw under every context iff it is written so. -/
theorem forall_resolve_eq_named_iff {t : TypeRef} :
    (∀ context : TypeContext, context.resolve t = .named q) ↔ t = .named q := by
  constructor
  · intro h
    rw [← h ∅, TypeContext.resolve_of_isEmpty TypeContext.lookup?_empty]
  · rintro rfl context
    exact TypeContext.resolve_named context q

/-- **When a documented wrapped type is transported as it is.** Let a handler without an effective hint
document a wrapped type of the model. What is transported is the declared type of that declaration with
the variables in force filled in, and nothing is noted. This is the documented type without arguments
iff the declaration declares just that, or a variable whose chain ends there; and it is so under every
context iff the declaration declares the type without arguments. -/
theorem unwrapped_wrapped (hhint : ∀ tag, r.hint = some tag → ¬ tag.GivesHint types)
    (hwraps : r.Wraps model d) (hname : d.typeName? = some q) :
    r.wrapped.map Text.trim = some q ∧
    (∃ answer, Represents types r.doc (r.context.resolve d.declaredType) answer ∧
      r.unwrapped model types = r.context.resolve d.declaredType ∧
      r.representation model types = (answer, [])) ∧
    (r.YieldsRaw model types q ↔ d.declaredType = .named q ∨
      ∃ x y, d.declaredType = .var x ∧ ReflTransGen r.context.Follows x y ∧
        r.context.lookup? y = some (.named q)) ∧
    ((∀ context, { r with context }.YieldsRaw model types q) ↔ d.declaredType = .named q) := by
  refine ⟨?_, ?_, ?_, ?_⟩
  · obtain ⟨text, htext, -, -, htrim⟩ := hwraps
    rw [htext, Option.map_some, ← htrim, hname]
  · obtain ⟨answer, hanswer, hrepresentation⟩ := represents_unwrapped model hhint
    rw [unwrapped_of_wraps hwraps] at hanswer
    exact ⟨answer, hanswer, unwrapped_of_wraps hwraps, hrepresentation⟩
  · rw [yieldsRaw_iff hhint hwraps, TypeContext.resolve_eq_named_iff]
    simp only [TypeContext.resolve_var_eq_named_iff, ← exists_and_left]
  · rw [← forall_resolve_eq_named_iff]
    exact forall_congr' fun context => yieldsRaw_iff (r := { r with context }) hhint hwraps

/-- A page type that declares itself with its own variable. -/
def genericPage : Declaration :=
  { Declaration.ofType "shop.Page" with declaredType := .declared "shop.Page" [.var "T"] }

/-- A generic page type beside a type of orders. -/
def pageModel : Model where
  decls := [genericPage, .ofType "shop.Order"]
  consistent := fault?_eq_none_iff.mp (by decide +kernel)

/-- A handler with a variable of its own that documents what it wraps. -/
def wrappedReturn (wrapped : String) : ReturnType where
  owner := "method list"
  declared := .void
  wrapped := some wrapped
  context := (∅ : TypeContext).bind "T" (.named "shop.Order")
  doc := some "what is listed"

theorem wrappedReturn_unhinted (wrapped : String) :
    ∀ tag, (wrappedReturn wrapped).hint = some tag → ¬ tag.GivesHint {} := by
  intro tag htag
  cases htag

theorem wrappedReturn_wraps_order :
    (wrappedReturn " shop.Order ").Wraps pageModel (.ofType "shop.Order") :=
  ⟨" shop.Order ", rfl, by decide +kernel, by simp [pageModel], by decide +kernel⟩

theorem wrappedReturn_yields_order :
    (∀ tag, (wrappedReturn " shop.Order ").hint = some tag → ¬ tag.GivesHint {}) ∧
      (wrappedReturn " shop.Order ").Wraps pageModel (.ofType "shop.Order") ∧
      (Declaration.ofType "shop.Order").typeName? = some "shop.Order" ∧
      ∀ context, { wrappedReturn " shop.Order " with context }.YieldsRaw pageModel {} "shop.Order" := by
  obtain ⟨-, -, -, hraw⟩ :=
    unwrapped_wrapped (wrappedReturn_unhinted _) wrappedReturn_wraps_order rfl
  exact ⟨wrappedReturn_unhinted _, wrappedReturn_wraps_order, rfl, hraw.mpr rfl⟩

theorem wrappedReturn_wraps_page : (wrappedReturn " shop.Page ").Wraps pageModel genericPage :=
  ⟨" shop.Page ", rfl, by decide +kernel, by simp [pageModel], by decide +kernel⟩

/-- The variable of the page type is taken for that of the handler: a page of orders is transported. -/
theorem wrappedReturn_captures :
    (∀ tag, (wrappedReturn " shop.Page ").hint = some tag → ¬ tag.GivesHint {}) ∧
      (wrappedReturn " shop.Page ").Wraps pageModel genericPage ∧
      genericPage.typeName? = some "shop.Page" ∧
      (wrappedReturn " shop.Page ").unwrapped pageModel {} =
        .declared "shop.Page" [.named "shop.Order"] ∧
      ¬ (wrappedReturn " shop.Page ").YieldsRaw pageModel {} "shop.Page" := by
  have hpage : (wrappedReturn " shop.Page ").unwrapped pageModel {} =
      .declared "shop.Page" [.named "shop.Order"] := by
    rw [unwrapped_of_wraps wrappedReturn_wraps_page, genericPage, TypeContext.resolve_declared]
    simp [wrappedReturn, TypeContext.resolve_var, TypeContext.lookup?_bind]
  refine ⟨wrappedReturn_unhinted _, wrappedReturn_wraps_page, rfl, hpage, fun hraw => ?_⟩
  cases hpage.symm.trans hraw.unwrapped

end ReturnType

end ApiDescription
