import Mathlib.Data.List.Forall2

/-!
# Selections from lists

A selection gives something for some items of a list and nothing for the others. What it gives stands in
the order of the list.

Results:
* `filterMap_sublist_filterMap`: a selection that gives less gives a part of the list, in its order.
* `filterMap_filter_eq_iff`: a selection makes the same of some items as of all iff it makes nothing of
  the others.
* `forall₂_filter_filterMap`: a selection goes through the items that it keeps one by one.
* `selects_iff`: what a selection makes of a list, said item by item (`Selects`).
* `rel_getLast?`: lists that correspond item by item have corresponding last items, or none.
* `rel_unique`: an optional item has one optional counterpart if every item has one counterpart.
-/

namespace ApiDescription

/-- A selection from a list that gives less than another gives a part of its result, in its order. -/
theorem filterMap_sublist_filterMap {α β : Type} {f g : α → Option β} {xs : List α}
    (h : ∀ x ∈ xs, ∀ b, f x = some b → g x = some b) : (xs.filterMap f).Sublist (xs.filterMap g) := by
  induction xs with
  | nil => exact List.Sublist.refl _
  | cons x xs ih =>
    have htail := ih fun y hy => h y (List.mem_cons_of_mem x hy)
    cases hf : f x with
    | none =>
      rw [List.filterMap_cons_none hf]
      cases hg : g x with
      | none => rwa [List.filterMap_cons_none hg]
      | some b => exact (List.filterMap_cons_some hg) ▸ htail.cons b
    | some b =>
      rw [List.filterMap_cons_some hf, List.filterMap_cons_some (h x List.mem_cons_self b hf)]
      exact htail.cons_cons b

/-- A selection makes the same of the items that are kept as of all items iff it makes nothing of the
others. -/
theorem filterMap_filter_eq_iff {α β : Type} {f : α → Option β} {keep : α → Bool} {xs : List α} :
    (xs.filter keep).filterMap f = xs.filterMap f ↔ ∀ x ∈ xs, keep x = false → f x = none := by
  induction xs with
  | nil => simp
  | cons x xs ih =>
    rw [List.forall_mem_cons, ← ih]
    by_cases hkeep : keep x = true
    · rw [List.filter_cons_of_pos hkeep]
      cases hf : f x with
      | none => simp [List.filterMap_cons_none hf]
      | some b => simp [List.filterMap_cons_some hf, hkeep]
    · rw [List.filter_cons_of_neg hkeep]
      cases hf : f x with
      | none => simp [List.filterMap_cons_none hf]
      | some b =>
        -- what is kept makes no more than all others do
        have hlength : ((xs.filter keep).filterMap f).length ≤ (xs.filterMap f).length :=
          (List.filter_sublist.filterMap f).length_le
        rw [List.filterMap_cons_some hf]
        constructor
        · intro heq
          rw [heq, List.length_cons] at hlength
          omega
        · rintro ⟨hnone, -⟩
          exact absurd (hnone (by simpa using hkeep)) (by simp)

/-- What a selection makes of a list stands, item by item, to the items that it keeps. -/
theorem forall₂_filter_filterMap {α β : Type} {f : α → Option β} {keep : α → Bool}
    {R : α → β → Prop} (hkeep : ∀ a, keep a = (f a).isSome) (hR : ∀ a b, f a = some b → R a b)
    (xs : List α) : List.Forall₂ R (xs.filter keep) (xs.filterMap f) := by
  induction xs with
  | nil => exact .nil
  | cons x xs ih =>
    have hx := hkeep x
    cases hf : f x with
    | none =>
      rw [hf] at hx
      rw [List.filterMap_cons_none hf, List.filter_cons_of_neg (by simp [hx])]
      exact ih
    | some b =>
      rw [hf] at hx
      rw [List.filterMap_cons_some hf, List.filter_cons_of_pos hx]
      exact .cons (hR x b hf) ih

/-- A list of results holds, in order, what is given for the items of a list. An item for which nothing is
given is passed over. -/
inductive Selects {α β : Type} (gives : α → β → Prop) : List α → List β → Prop
  | nil : Selects gives [] []
  | keep {x : α} {y : β} {xs : List α} {ys : List β} (hx : gives x y) (hxs : Selects gives xs ys) :
      Selects gives (x :: xs) (y :: ys)
  | skip {x : α} {xs : List α} {ys : List β} (hx : ∀ y, ¬ gives x y) (hxs : Selects gives xs ys) :
      Selects gives (x :: xs) ys

/-- What a selection makes of a list is what it gives item by item. -/
theorem selects_iff {α β : Type} {f : α → Option β} {gives : α → β → Prop}
    (hf : ∀ x y, f x = some y ↔ gives x y) {xs : List α} {ys : List β} :
    Selects gives xs ys ↔ xs.filterMap f = ys := by
  constructor
  · intro h
    induction h with
    | nil => rfl
    | keep hx _ ih => rw [List.filterMap_cons_some ((hf _ _).mpr hx), ih]
    | skip hx _ ih =>
      rw [List.filterMap_cons_none (Option.eq_none_iff_forall_ne_some.mpr fun y hy => ?_), ih]
      exact hx y ((hf _ y).mp hy)
  · rintro rfl
    induction xs with
    | nil => exact .nil
    | cons x xs ih =>
      cases hx : f x with
      | none =>
        rw [List.filterMap_cons_none hx]
        exact .skip (fun y hy => by simp [(hf x y).mpr hy] at hx) ih
      | some y =>
        rw [List.filterMap_cons_some hx]
        exact .keep ((hf x y).mp hx) ih

/-- Lists that correspond item by item have corresponding last items, or none. -/
theorem rel_getLast? {α β : Type} {R : α → β → Prop} {xs : List α} {ys : List β}
    (h : List.Forall₂ R xs ys) : Option.Rel R xs.getLast? ys.getLast? := by
  have hhead : ∀ {xs ys}, List.Forall₂ R xs ys → Option.Rel R xs.head? ys.head? := by
    rintro _ _ (_ | ⟨hx, -⟩)
    · exact .none
    · exact .some hx
  rw [List.getLast?_eq_head?_reverse, List.getLast?_eq_head?_reverse]
  exact hhead (List.forall₂_reverse_iff.mpr h)

theorem rel_unique {α β : Type} {R : α → β → Prop} (hR : Relator.RightUnique R) {x : Option α}
    {y z : Option β} (hy : Option.Rel R x y) (hz : Option.Rel R x z) : y = z := by
  cases hy with
  | none => cases hz; rfl
  | some hy =>
    cases hz with
    | some hz => rw [hR hy hz]

end ApiDescription
