import ApiDescription.Proofs.Reachability
import ApiDescription.Proofs.TypeRef.Resolution

/-!
# Resolution as substitution

While the binding of a variable is followed, the variable is free. Where nothing that is resolved leads
to the variable, this makes no difference. So if no variable depends on itself, resolution is plain
substitution: a variable resolves to what its binding resolves to, until no bound variable is left.

Results:
* `TypeRef.bind_congr`: only the variables that occur in a type matter for what fills them in.
* `resolve_congr`: only what the variables of a type resolve to matters for what the type resolves to.
* `resolve_free_of_not_reaches`: a variable may be free where a type does not lead to it.
* `resolve_eq_self`: a type without bound variables is resolved.
* `resolve_complete`: resolution is substitution, carried on to the end where there are no cycles.
-/

namespace ApiDescription

open Relation

namespace TypeRef

variable {f g : String → TypeRef}

/-- Types for the variables of a type that agree give the same type. -/
theorem bind_congr (t : TypeRef) (h : ∀ x, t.Mentions x → f x = g x) : t.bind f = t.bind g := by
  induction t using nestedInduction with
  | void => rfl
  | primitive name => rfl
  | unknown => rfl
  | var name => exact h name .var
  | array element ih => rw [bind, bind, ih fun x hx => h x (.element hx)]
  | declared name args ih =>
    rw [bind, bind, bindAll_eq_map, bindAll_eq_map]
    exact congrArg (declared name) (List.map_congr_left fun a ha => ih a ha fun x hx => h x (.arg ha hx))

/-- Filling in makes no variable of another type. -/
theorem exists_var_of_bind_eq_var {t : TypeRef} {x : String} (h : t.bind f = .var x) :
    ∃ w, t = .var w := by
  cases t with
  | var w => exact ⟨w, rfl⟩
  | _ => simp [bind] at h

end TypeRef

namespace TypeContext

variable {context context' : TypeContext} {v x y : String} {t bound : TypeRef}

/-- Contexts that bind the same variables to the same types are equal. -/
theorem ext_lookup? (h : ∀ x, context.lookup? x = context'.lookup? x) : context = context' :=
  congrArg TypeContext.mk (Std.ExtTreeMap.ext_getElem? h)

theorem free_comm (context : TypeContext) (x y : String) :
    (context.free x).free y = (context.free y).free x := by
  refine ext_lookup? fun z => ?_
  simp only [lookup?_free]
  by_cases hx : x = z <;> simp [hx]

/-- Contexts that resolve the variables of a type alike resolve the type alike. -/
theorem resolve_congr
    (h : ∀ x, t.Mentions x → context.resolve (.var x) = context'.resolve (.var x)) :
    context.resolve t = context'.resolve t := by
  rw [resolve_eq_bind, resolve_eq_bind context']
  exact TypeRef.bind_congr t h

/-- **Where a type does not lead to a variable, the variable may be free.** -/
theorem resolve_free_of_not_reaches
    (h : ∀ x, t.Mentions x → ¬ ReflTransGen context.DependsOn x v) :
    (context.free v).resolve t = context.resolve t := by
  induction context, t using resolve.induct with
  | case1 context t ih =>
    refine resolve_congr fun x hx => ?_
    have hvx : v ≠ x := fun heq => h x hx (heq ▸ .refl)
    rw [resolve_var, resolve_var, lookup?_free, if_neg hvx]
    cases hbound : context.lookup? x with
    | none => rfl
    | some bound =>
      show ((context.free v).free x).resolve bound = (context.free x).resolve bound
      rw [free_comm]
      exact ih x bound hbound fun y hy hreach =>
        h x hx (reaches_of_lookup? hbound hy hreach).to_reflTransGen

/-- A type without bound variables is resolved. -/
theorem resolve_eq_self (h : ∀ x, t.Mentions x → context.lookup? x = none) :
    context.resolve t = t := by
  rw [resolve_eq_bind]
  refine (TypeRef.bind_congr t fun x hx => ?_).trans (TypeRef.bind_var t)
  rw [resolve_var, h x hx]

/-! ## Contexts without cycles -/

/-- No variable depends on itself. -/
def Acyclic (context : TypeContext) : Prop :=
  ∀ x, ¬ TransGen context.DependsOn x x

/-- A context has no cycles if its variables can be ranked with every dependency going down. -/
theorem acyclic_of_rank (rank : String → Nat)
    (h : ∀ x y, context.DependsOn x y → rank y < rank x) : context.Acyclic := by
  have hpath : ∀ x y, TransGen context.DependsOn x y → rank y < rank x := by
    intro x y hxy
    induction hxy with
    | single hstep => exact h _ _ hstep
    | tail _ hstep ih => exact Nat.lt_trans (h _ _ hstep) ih
  exact fun x hx => Nat.lt_irrefl _ (hpath x x hx)

/-- Without cycles a variable resolves to what its binding resolves to. -/
theorem Acyclic.resolve_var_eq (hacyclic : context.Acyclic) (h : context.lookup? v = some bound) :
    context.resolve (.var v) = context.resolve bound := by
  rw [resolve_var, h]
  exact resolve_free_of_not_reaches fun x hx hreach =>
    hacyclic v (.head' ⟨bound, h, hx⟩ hreach)

/-- Without cycles no bound variable is left. -/
theorem Acyclic.lookup?_eq_none (hacyclic : context.Acyclic)
    (h : (context.resolve t).Mentions x) : context.lookup? x = none :=
  (settled_resolve context t x h).resolve_right (hacyclic x)

/-- **Resolution is substitution.** It goes into arguments and elements part by part, and leaves only
variables that are unbound or depend on themselves. If no variable depends on itself, a variable
resolves to what its binding resolves to, no bound variable is left, and what is resolved stays as it
is. -/
theorem resolve_complete (context : TypeContext) :
    (∀ name args,
      context.resolve (.declared name args) = .declared name (args.map context.resolve)) ∧
    (∀ element, context.resolve (.array element) = .array (context.resolve element)) ∧
    (∀ t x, (context.resolve t).Mentions x →
      context.lookup? x = none ∨ TransGen context.DependsOn x x) ∧
    (context.Acyclic →
      (∀ v bound, context.lookup? v = some bound →
        context.resolve (.var v) = context.resolve bound) ∧
      (∀ t x, (context.resolve t).Mentions x → context.lookup? x = none) ∧
      ∀ t, context.resolve (context.resolve t) = context.resolve t) := by
  refine ⟨resolve_declared context, resolve_array context, settled_resolve context,
    fun hacyclic => ⟨fun v bound => hacyclic.resolve_var_eq, fun t x => hacyclic.lookup?_eq_none,
      fun t => resolve_eq_self fun x => hacyclic.lookup?_eq_none⟩⟩

/-- A map of `T` to arrays, in terms of a variable that stands for another. -/
def pageContext : TypeContext :=
  ((∅ : TypeContext).bind "T" (.declared "Map" [.var "U", .array (.var "V")])).bind "U" (.var "V")

theorem pageContext_acyclic : pageContext.Acyclic := by
  refine acyclic_of_rank (fun x => if x = "T" then 2 else if x = "U" then 1 else 0) fun x y => ?_
  rintro ⟨bound, hbound, hy⟩
  rw [pageContext, lookup?_bind, lookup?_bind, lookup?_empty] at hbound
  split at hbound
  · next hx =>
    obtain rfl := Option.some.inj hbound
    obtain rfl := TypeRef.mentions_var_iff.mp hy
    simp [← hx]
  · split at hbound
    · next hx =>
      obtain rfl := Option.some.inj hbound
      have hy' : "U" = y ∨ "V" = y := by simpa using hy
      rcases hy' with rfl | rfl <;> simp [← hx]
    · cases hbound

theorem pageContext_resolve :
    pageContext.resolve (.var "T") =
        pageContext.resolve (.declared "Map" [.var "U", .array (.var "V")]) ∧
      (pageContext.resolve (.var "T")).display = "Map<V, V[]>" ∧
      pageContext.resolve (pageContext.resolve (.var "T")) = pageContext.resolve (.var "T") := by
  obtain ⟨-, -, -, hacyclic⟩ := resolve_complete pageContext
  obtain ⟨hbound, -, hidempotent⟩ := hacyclic pageContext_acyclic
  refine ⟨hbound "T" _ ?_, by decide +kernel, hidempotent (.var "T")⟩
  simp [pageContext, lookup?_bind]

end TypeContext

end ApiDescription
