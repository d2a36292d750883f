import ApiDescription.TypeRef.Context
import Mathlib.Logic.Relation

/-!
# Which variables resolution leaves

A variable depends on another if its binding mentions it. Resolution follows these dependencies and
frees a variable while its binding is being followed, so it stops at variables without a binding and
where a dependency comes back to a variable it has come from. A variable that is left is of one of these
kinds: it is unbound, or it lies on a cycle of dependencies.

Results:
* `mentions_bind_iff`: which variables a type mentions after variables were filled in.
* `exists_reaches_of_mentions_resolve`: a variable that resolution leaves is reached from one of the
  type.
* `settled_resolve`: a variable that resolution leaves is unbound or lies on a cycle.
-/

namespace ApiDescription

/-! ## Variables of a type -/

/-- A variable occurs in a type, at any depth. -/
inductive TypeRef.Mentions (x : String) : TypeRef → Prop where
  | var : Mentions x (.var x)
  | arg {name : String} {args : List TypeRef} {a : TypeRef} (ha : a ∈ args) (h : Mentions x a) :
      Mentions x (.declared name args)
  | element {e : TypeRef} (h : Mentions x e) : Mentions x (.array e)

namespace TypeRef

variable {x y name : String}

@[simp] theorem not_mentions_void : ¬ void.Mentions x :=
  nofun

@[simp] theorem not_mentions_primitive : ¬ (primitive name).Mentions x :=
  nofun

@[simp] theorem not_mentions_unknown : ¬ unknown.Mentions x :=
  nofun

@[simp] theorem mentions_var_iff : (var y).Mentions x ↔ y = x := by
  constructor
  · rintro ⟨⟩
    rfl
  · rintro rfl
    exact .var

@[simp] theorem mentions_declared_iff {args : List TypeRef} :
    (declared name args).Mentions x ↔ ∃ a ∈ args, a.Mentions x := by
  constructor
  · rintro (_ | ⟨ha, h⟩)
    exact ⟨_, ha, h⟩
  · rintro ⟨a, ha, h⟩
    exact .arg ha h

@[simp] theorem mentions_array_iff {e : TypeRef} : (array e).Mentions x ↔ e.Mentions x := by
  constructor
  · rintro (_ | _ | h)
    exact h
  · exact .element

/-- After filling in, a type mentions what is mentioned by the type of one of its variables. -/
theorem mentions_bind_iff {f : String → TypeRef} (t : TypeRef) :
    (t.bind f).Mentions y ↔ ∃ x, t.Mentions x ∧ (f x).Mentions y := by
  induction t using nestedInduction with
  | void => simp [bind]
  | primitive name => simp [bind]
  | unknown => simp [bind]
  | var name => simp [bind]
  | array element ih => simpa [bind] using ih
  | declared name args ih =>
    simp only [bind, bindAll_eq_map, mentions_declared_iff, List.mem_map]
    constructor
    · rintro ⟨_, ⟨a, ha, rfl⟩, h⟩
      obtain ⟨x, hx, hy⟩ := (ih a ha).mp h
      exact ⟨x, ⟨a, ha, hx⟩, hy⟩
    · rintro ⟨x, ⟨a, ha, hx⟩, hy⟩
      exact ⟨a.bind f, ⟨a, ha, rfl⟩, (ih a ha).mpr ⟨x, hx, hy⟩⟩

end TypeRef

/-! ## Dependencies -/

namespace TypeContext

open Relation

/-- The binding of one variable mentions another. -/
def DependsOn (context : TypeContext) (x y : String) : Prop :=
  ∃ bound, context.lookup? x = some bound ∧ bound.Mentions y

/-- A variable is unbound or lies on a cycle of dependencies. -/
def Open (context : TypeContext) (x : String) : Prop :=
  context.lookup? x = none ∨ TransGen context.DependsOn x x

/-- All variables of a type are open. -/
def Settled (context : TypeContext) (t : TypeRef) : Prop :=
  ∀ x, t.Mentions x → context.Open x

variable {context : TypeContext} {x y : String} {bound t : TypeRef}

theorem lookup?_free (context : TypeContext) (x y : String) :
    (context.free x).lookup? y = if x = y then none else context.lookup? y := by
  simp only [lookup?, free, Std.ExtTreeMap.getElem?_erase, Std.LawfulEqCmp.compare_eq_iff_eq]

/-- What a variable depends on where another is free, it depends on at all. -/
theorem dependsOn_free_le (context : TypeContext) (x : String) :
    (context.free x).DependsOn ≤ context.DependsOn := by
  rintro y z ⟨bound, hbound, hz⟩
  rw [lookup?_free] at hbound
  split at hbound
  · cases hbound
  · exact ⟨bound, hbound, hz⟩

/-- Where the binding of a variable is followed, what its variables reach is reached from it. -/
theorem reaches_of_lookup? {z : String} (h : context.lookup? x = some bound) (hz : bound.Mentions z)
    (hreach : ReflTransGen (context.free x).DependsOn z y) : TransGen context.DependsOn x y :=
  .head' ⟨bound, h, hz⟩ (ReflTransGen.mono (dependsOn_free_le context x) z y hreach)

/-- A variable that resolution leaves is an unbound one of the type, or left of the binding of a bound
one of the type. -/
theorem mentions_resolve_iff : (context.resolve t).Mentions y ↔
    (t.Mentions y ∧ context.lookup? y = none) ∨
      ∃ x bound, t.Mentions x ∧ context.lookup? x = some bound ∧
        ((context.free x).resolve bound).Mentions y := by
  rw [resolve_eq_bind, TypeRef.mentions_bind_iff]
  constructor
  · rintro ⟨x, hx, hy⟩
    rw [resolve_var] at hy
    split at hy
    · next bound hbound => exact .inr ⟨x, bound, hx, hbound, hy⟩
    · next hnone =>
      obtain rfl := TypeRef.mentions_var_iff.mp hy
      exact .inl ⟨hx, hnone⟩
  · rintro (⟨hy, hnone⟩ | ⟨x, bound, hx, hbound, hy⟩)
    · exact ⟨y, hy, by simp [resolve_var, hnone]⟩
    · exact ⟨x, hx, by simpa [resolve_var, hbound] using hy⟩

/-- A variable that resolution leaves is reached by dependencies from a variable of the type. -/
theorem exists_reaches_of_mentions_resolve (h : (context.resolve t).Mentions y) :
    ∃ x, t.Mentions x ∧ ReflTransGen context.DependsOn x y := by
  induction context, t using resolve.induct with
  | case1 context t ih =>
    rcases mentions_resolve_iff.mp h with ⟨hy, -⟩ | ⟨x, bound, hx, hbound, hy⟩
    · exact ⟨y, hy, .refl⟩
    · obtain ⟨z, hz, hreach⟩ := ih x bound hbound hy
      exact ⟨x, hx, (reaches_of_lookup? hbound hz hreach).to_reflTransGen⟩

/-- **A variable that resolution leaves is unbound or lies on a cycle.** -/
theorem settled_resolve (context : TypeContext) (t : TypeRef) :
    context.Settled (context.resolve t) := by
  induction context, t using resolve.induct with
  | case1 context t ih =>
    intro y h
    rcases mentions_resolve_iff.mp h with ⟨-, hnone⟩ | ⟨x, bound, hx, hbound, hy⟩
    · exact .inl hnone
    · rcases ih x bound hbound y hy with hfree | hcycle
      · by_cases hxy : x = y
        · -- unbound only because its binding was being followed: the dependencies came back to it
          subst hxy
          obtain ⟨z, hz, hreach⟩ := exists_reaches_of_mentions_resolve hy
          exact .inr (reaches_of_lookup? hbound hz hreach)
        · rw [lookup?_free, if_neg hxy] at hfree
          exact .inl hfree
      · exact .inr (TransGen.mono (dependsOn_free_le context x) y y hcycle)

end TypeContext

end ApiDescription
