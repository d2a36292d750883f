import Mathlib.Logic.Relation

/-!
# Paths that leave a point for the last time

A search that has followed all steps from a point may forget them. It loses nothing by that: a path may
come through the point several times, but behind its last visit it uses one forgotten step, the first,
and no other.

Results:
* `reaches_avoiding_or`: a path avoids the steps from a point, or comes to the point and goes on from
  one of its steps without the others.
* `exists_last_step`: a path from the point itself to another one goes on from one of its steps so.
-/

namespace ApiDescription

open Relation

variable {α : Type} {r : α → α → Prop} {a b : α}

/-- The steps of a relation that do not start at `x`. -/
def Avoiding (r : α → α → Prop) (x a b : α) : Prop :=
  a ≠ x ∧ r a b

theorem avoiding_le (r : α → α → Prop) (x : α) : Avoiding r x ≤ r :=
  fun _ _ h => h.2

theorem reaches_of_avoiding {x : α} (h : ReflTransGen (Avoiding r x) a b) : ReflTransGen r a b :=
  ReflTransGen.mono (avoiding_le r x) a b h

/-- A path avoids the steps from `x`, or comes to `x` and goes on from one of them without the others. -/
theorem reaches_avoiding_or (h : ReflTransGen r a b) (x : α) :
    ReflTransGen (Avoiding r x) a b ∨
      ReflTransGen r a x ∧ ∃ z, r x z ∧ ReflTransGen (Avoiding r x) z b := by
  induction h using ReflTransGen.head_induction_on with
  | refl => exact .inl .refl
  | @head a c hstep _ ih =>
    rcases ih with hrest | ⟨hx, hlast⟩
    · by_cases hax : a = x
      · subst hax
        exact .inr ⟨.refl, c, hstep, hrest⟩
      · exact .inl (.head ⟨hax, hstep⟩ hrest)
    · exact .inr ⟨.head hstep hx, hlast⟩

/-- A path to another point goes on from a step after which it does not come back. -/
theorem exists_last_step (h : ReflTransGen r a b) (hab : a ≠ b) :
    ∃ z, r a z ∧ ReflTransGen (Avoiding r a) z b := by
  rcases reaches_avoiding_or h a with havoid | ⟨-, hlast⟩
  · rcases havoid.cases_head with heq | ⟨_, ⟨hne, -⟩, -⟩
    · exact absurd heq hab
    · exact absurd rfl hne
  · exact hlast

end ApiDescription
