/-!
# Traversals that may fail

`List.mapM` with a function into `Option` or `Except`: the traversal succeeds exactly if the function
does on every item, and then the results stand in the order of the items; otherwise the failure is
that of the first item without a result.

* `mapM_eq_some_iff`, `mapM_eq_ok_iff`: success, with all results at once.
* `mapM_snd_eq_some_iff`, `exists_pair_of_mem`, `map_lookup_of_mapM`: traversals of pairs that keep the
  first parts.
* `mapM_eq_error_iff`: failure, with the item at which the traversal stops.
* `mapM_congr`: functions that agree on the items are traversed alike.
* `bind_eq_ok_iff`, `bind_eq_error_iff`: a step of an `Except` program; `mapError_eq_ok_iff`,
  `mapError_eq_error_iff`: a change of its errors; `toOption_eq_some_iff`: its result alone.
-/

namespace ApiDescription

variable {α β ε : Type}

/-! ## Steps -/

theorem bind_eq_ok_iff {x : Except ε α} {f : α → Except ε β} {b : β} :
    x >>= f = .ok b ↔ ∃ a, x = .ok a ∧ f a = .ok b := by
  cases x with
  | error e => simp [bind, Except.bind]
  | ok a => simp [bind, Except.bind]

theorem bind_eq_error_iff {x : Except ε α} {f : α → Except ε β} {e : ε} :
    x >>= f = .error e ↔ x = .error e ∨ ∃ a, x = .ok a ∧ f a = .error e := by
  cases x with
  | error e => simp [bind, Except.bind]
  | ok a => simp [bind, Except.bind]

theorem mapError_eq_ok_iff {δ : Type} {x : Except ε α} {f : ε → δ} {a : α} :
    x.mapError f = .ok a ↔ x = .ok a := by
  cases x with
  | error e => exact ⟨nofun, nofun⟩
  | ok b =>
    constructor
    · intro h
      exact congrArg Except.ok (Except.ok.inj h)
    · intro h
      exact congrArg Except.ok (Except.ok.inj h)

theorem mapError_eq_error_iff {δ : Type} {x : Except ε α} {f : ε → δ} {e : δ} :
    x.mapError f = .error e ↔ ∃ cause, x = .error cause ∧ f cause = e := by
  cases x with
  | error cause =>
    constructor
    · intro h
      exact ⟨cause, rfl, Except.error.inj h⟩
    · rintro ⟨_, hc, rfl⟩
      exact congrArg (Except.error ∘ f) (Except.error.inj hc)
  | ok a => exact ⟨nofun, fun ⟨_, h, _⟩ => nomatch h⟩

theorem toOption_eq_some_iff {x : Except ε α} {a : α} : x.toOption = some a ↔ x = .ok a := by
  cases x with
  | error e => exact ⟨nofun, nofun⟩
  | ok b => simp [Except.toOption]

/-! ## Traversals -/

theorem mapM_eq_some_iff {f : α → Option β} {xs : List α} {ys : List β} :
    xs.mapM f = some ys ↔ xs.map f = ys.map some := by
  induction xs generalizing ys with
  | nil => cases ys <;> simp
  | cons x xs ih =>
    rw [List.mapM_cons, Option.bind_eq_bind, Option.bind_eq_some_iff]
    cases ys with
    | nil => simp [Option.bind_eq_some_iff]
    | cons z zs =>
      simp only [Option.bind_eq_bind, Option.bind_eq_some_iff, Option.pure_def,
        Option.some.injEq, List.cons.injEq, List.map_cons]
      constructor
      · rintro ⟨_, hx, _, hm, rfl, rfl⟩
        exact ⟨hx, ih.mp hm⟩
      · rintro ⟨hx, hm⟩
        exact ⟨z, hx, zs, ih.mpr hm, rfl, rfl⟩

/-! ### Traversals of pairs that read the second parts -/

section Pairs

variable {κ : Type} {f : α → Option β} {xs : List (κ × α)} {ys : List (κ × β)}

theorem mapM_snd_eq_some_iff :
    (xs.mapM fun x => return (x.1, ← f x.2)) = some ys ↔
      xs.map (·.1) = ys.map (·.1) ∧ xs.map (f ·.2) = ys.map (some ·.2) := by
  rw [mapM_eq_some_iff]
  induction xs generalizing ys with
  | nil => cases ys <;> simp
  | cons x xs ih =>
    cases ys with
    | nil => simp
    | cons y ys =>
      have hstep : (do return (x.1, ← f x.2)) = some y ↔ x.1 = y.1 ∧ f x.2 = some y.2 := by
        obtain ⟨k, b⟩ := y
        cases f x.2 <;> simp
      simp only [List.map_cons, List.cons.injEq, hstep, ih, and_and_and_comm]

/-- Every pair of a traversal has its result. -/
theorem exists_snd_of_mem (h : (xs.mapM fun x => return (x.1, ← f x.2)) = some ys) {x : κ × α}
    (hx : x ∈ xs) : ∃ b, (x.1, b) ∈ ys ∧ f x.2 = some b := by
  have hm := List.mem_map_of_mem (f := fun x : κ × α => do return (x.1, ← f x.2)) hx
  rw [mapM_eq_some_iff.mp h] at hm
  obtain ⟨y, hy, he⟩ := List.mem_map.mp hm
  obtain ⟨b, hb, hp⟩ := Option.bind_eq_some_iff.mp he.symm
  obtain rfl := Option.some.inj hp
  exact ⟨b, hy, hb⟩

/-- Every result of a traversal has its pair. -/
theorem exists_pair_of_mem (h : (xs.mapM fun x => return (x.1, ← f x.2)) = some ys) {k : κ}
    {b : β} (hy : (k, b) ∈ ys) : ∃ x ∈ xs, x.1 = k ∧ f x.2 = some b := by
  have hm := List.mem_map_of_mem (f := some) hy
  rw [← mapM_eq_some_iff.mp h] at hm
  obtain ⟨x, hx, he⟩ := List.mem_map.mp hm
  obtain ⟨b', hb, hp⟩ := Option.bind_eq_some_iff.mp he
  obtain ⟨rfl, rfl⟩ := Prod.mk.inj (Option.some.inj hp)
  exact ⟨x, hx, rfl, hb⟩

/-- A traversal leaves every key with the result of its value. -/
theorem map_lookup_of_mapM [BEq κ] (h : (xs.mapM fun x => return (x.1, ← f x.2)) = some ys)
    (k : κ) : (xs.lookup k).map f = (ys.lookup k).map some := by
  obtain ⟨hkeys, hvalues⟩ := mapM_snd_eq_some_iff.mp h
  clear h
  induction xs generalizing ys with
  | nil =>
    obtain rfl : ys = [] := by simpa using hkeys.symm
    rfl
  | cons x xs ih =>
    cases ys with
    | nil => simp at hkeys
    | cons y ys =>
      obtain ⟨hkey, hkeys⟩ := List.cons.inj hkeys
      obtain ⟨hvalue, hvalues⟩ := List.cons.inj hvalues
      rw [List.lookup_cons, List.lookup_cons, show x.1 = y.1 from hkey]
      split
      · exact congrArg some hvalue
      · exact ih hkeys hvalues

end Pairs

/-! ### Traversals with errors -/

theorem mapM_eq_ok_iff {f : α → Except ε β} {xs : List α} {ys : List β} :
    xs.mapM f = .ok ys ↔ xs.map f = ys.map .ok := by
  induction xs generalizing ys with
  | nil => cases ys <;> simp [pure, Except.pure]
  | cons x xs ih =>
    rw [List.mapM_cons, bind_eq_ok_iff]
    cases ys with
    | nil => simp [bind_eq_ok_iff, pure, Except.pure]
    | cons z zs =>
      simp only [bind_eq_ok_iff, pure, Except.pure, Except.ok.injEq, List.cons.injEq,
        List.map_cons]
      constructor
      · rintro ⟨_, hx, _, hm, rfl, rfl⟩
        exact ⟨hx, ih.mp hm⟩
      · rintro ⟨hx, hm⟩
        exact ⟨z, hx, zs, ih.mpr hm, rfl, rfl⟩

/-- A traversal asks its function about the items and about nothing else. -/
theorem mapM_congr {f g : α → Except ε β} {xs : List α} (h : ∀ x ∈ xs, f x = g x) :
    xs.mapM f = xs.mapM g := by
  induction xs with
  | nil => rfl
  | cons x xs ih =>
    have htail : xs.mapM f = xs.mapM g := ih fun y hy => h y (List.mem_cons_of_mem x hy)
    rw [List.mapM_cons, List.mapM_cons, h x List.mem_cons_self, htail]

theorem exists_mapM_eq_ok_iff {f : α → Except ε β} {xs : List α} :
    (∃ ys, xs.mapM f = .ok ys) ↔ ∀ x ∈ xs, ∃ y, f x = .ok y := by
  induction xs with
  | nil => simp [pure, Except.pure]
  | cons x xs ih =>
    simp only [List.mapM_cons, bind_eq_ok_iff, pure, Except.pure, Except.ok.injEq,
      List.forall_mem_cons, ← ih]
    constructor
    · rintro ⟨_, y, hy, ys, hys, _⟩
      exact ⟨⟨y, hy⟩, ys, hys⟩
    · rintro ⟨⟨y, hy⟩, ys, hys⟩
      exact ⟨y :: ys, y, hy, ys, hys, rfl⟩

theorem mapM_eq_error_iff {f : α → Except ε β} {xs : List α} {e : ε} :
    xs.mapM f = .error e ↔ ∃ before x after,
      xs = before ++ x :: after ∧ (∀ y ∈ before, ∃ z, f y = .ok z) ∧ f x = .error e := by
  induction xs with
  | nil => simp [pure, Except.pure]
  | cons x xs ih =>
    rw [List.mapM_cons, bind_eq_error_iff]
    constructor
    · rintro (hx | ⟨y, hx, hrest⟩)
      · exact ⟨[], x, xs, rfl, by simp, hx⟩
      · rw [bind_eq_error_iff] at hrest
        obtain hm | ⟨_, _, hp⟩ := hrest
        · obtain ⟨before, x', after, rfl, hb, he⟩ := ih.mp hm
          exact ⟨x :: before, x', after, rfl, by simpa using ⟨⟨y, hx⟩, hb⟩, he⟩
        · cases hp
    · rintro ⟨before, x', after, hxs, hb, he⟩
      cases before with
      | nil =>
        obtain ⟨rfl, rfl⟩ := List.cons.inj hxs
        exact .inl he
      | cons b before =>
        obtain ⟨rfl, rfl⟩ := List.cons.inj hxs
        obtain ⟨y, hy⟩ := hb x List.mem_cons_self
        refine .inr ⟨y, hy, bind_eq_error_iff.mpr (.inl (ih.mpr ?_))⟩
        exact ⟨before, x', after, rfl, fun z hz => hb z (List.mem_cons_of_mem x hz), he⟩

end ApiDescription
