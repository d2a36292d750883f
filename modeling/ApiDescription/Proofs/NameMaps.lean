import ApiDescription.Tag.Map
import Mathlib.Data.List.Nodup

/-!
# What maps made of lists hold

A map made of a list of pairs has the names of the list, and under each name the value of the last pair
of that name. The listing of a map is in the strict order of names, so it is determined by what the map
holds.

Results:
* `eq_of_mem_iff`: two listings in strict order are equal if they have the same members.
* `mem_ofPairs_iff`, `getElem?_ofPairs_eq_some_iff`: the names of a map made of pairs, and their values.
* `getElem?_ofPairs_filterMap_eq_some_iff`: the same where the pairs are read from items;
  `getElem?_ofPairs_append`: the same of two lists put together.
* `toList_eq_map`: changing the values of a map changes those of its listing, and nothing else.
* `TagMap.pairwise_names`: the names of tags are listed in strict order.
-/

namespace ApiDescription

variable {α β : Type}

/-- Two listings in strict order of names are equal if they have the same members. -/
theorem eq_of_mem_iff {name : α → String} {xs ys : List α}
    (hx : xs.Pairwise fun a b => name a < name b) (hy : ys.Pairwise fun a b => name a < name b)
    (h : ∀ a, a ∈ xs ↔ a ∈ ys) : xs = ys := by
  have hnd : ∀ {l : List α}, l.Pairwise (fun a b => name a < name b) → l.Nodup := by
    intro l hl
    refine hl.imp fun {a b} hlt he => ?_
    subst he
    exact String.lt_irrefl _ hlt
  have hperm : xs.Perm ys := (List.perm_ext_iff_of_nodup (hnd hx) (hnd hy)).mpr h
  exact hperm.eq_of_pairwise (fun _ _ _ _ hab hba => absurd hba (String.lt_asymm hab)) hx hy

namespace NameMap

/-! ## Maps of pairs -/

/-- Under a name stands the value of the last pair of that name. -/
theorem getElem?_ofPairs_eq_some_iff {pairs : List (String × α)} {name : String} {value : α} :
    (ofPairs pairs)[name]? = some value ↔ ∃ before after,
      pairs = before ++ (name, value) :: after ∧ ∀ e ∈ after, e.1 ≠ name := by
  rw [getElem?_ofPairs, List.lookup_eq_some_iff]
  constructor
  · rintro ⟨later, earlier, hl, hne⟩
    have hpairs : pairs = earlier.reverse ++ (name, value) :: later.reverse := by
      have hr := congrArg List.reverse hl
      simpa using hr
    refine ⟨earlier.reverse, later.reverse, hpairs, fun e he hn => ?_⟩
    have hlater := hne e (List.mem_reverse.mp he)
    simp [hn] at hlater
  · rintro ⟨before, after, rfl, hne⟩
    refine ⟨after.reverse, before.reverse, by simp, fun e he => ?_⟩
    have hn := hne e (List.mem_reverse.mp he)
    simpa using hn.symm

/-- Under a name stands what the last item that has the name gives. -/
theorem getElem?_ofPairs_filterMap_eq_some_iff {f : β → Option (String × α)} {xs : List β}
    {name : String} {value : α} :
    (ofPairs (xs.filterMap f))[name]? = some value ↔ ∃ before x after,
      xs = before ++ x :: after ∧ f x = some (name, value) ∧
        ∀ y ∈ after, ∀ other, f y ≠ some (name, other) := by
  rw [getElem?_ofPairs_eq_some_iff]
  constructor
  · rintro ⟨_, _, hpairs, hne⟩
    obtain ⟨xs₁, xs₂, rfl, -, hrest⟩ := List.filterMap_eq_append_iff.mp hpairs
    obtain ⟨skipped, x, after, rfl, -, hx, rfl⟩ := List.filterMap_eq_cons_iff.mp hrest
    refine ⟨xs₁ ++ skipped, x, after, by simp, hx, fun y hy other ho => ?_⟩
    exact hne (name, other) (List.mem_filterMap.mpr ⟨y, hy, ho⟩) rfl
  · rintro ⟨before, x, after, rfl, hx, hne⟩
    refine ⟨before.filterMap f, after.filterMap f, ?_, fun e he hn => ?_⟩
    · rw [List.filterMap_append, List.filterMap_cons_some hx]
    · obtain ⟨y, hy, ho⟩ := List.mem_filterMap.mp he
      subst hn
      exact hne y hy e.2 ho

theorem mem_ofPairs_iff {pairs : List (String × α)} {name : String} :
    name ∈ ofPairs pairs ↔ ∃ e ∈ pairs, e.1 = name := by
  rw [ofPairs, Std.ExtTreeMap.mem_ofList, List.contains_iff_mem, List.mem_map]

/-- Of two lists of pairs the second counts first. -/
theorem getElem?_ofPairs_append (pairs others : List (String × α)) (name : String) :
    (ofPairs (pairs ++ others))[name]? = (ofPairs others)[name]?.or (ofPairs pairs)[name]? := by
  simp only [getElem?_ofPairs, List.reverse_append, List.lookup_append]

/-! ## Listings -/

/-- Names stand in the listing of a map in strict order. -/
theorem pairwise_toList (m : NameMap α) : m.toList.Pairwise fun a b => a.1 < b.1 :=
  Std.ExtTreeMap.ordered_keys_toList.imp compare_eq_lt_iff.mp

/-- A map with changed values has the same listing but for the values. -/
theorem toList_eq_map {m : NameMap α} {m' : NameMap β} {f : α → β}
    (h : ∀ name : String, m'[name]? = m[name]?.map f) :
    m'.toList = m.toList.map fun e => (e.1, f e.2) := by
  refine eq_of_mem_iff (pairwise_toList m') (List.pairwise_map.mpr (pairwise_toList m)) ?_
  rintro ⟨name, value⟩
  rw [Std.ExtTreeMap.mem_toList_iff_getElem?_eq_some, h, Option.map_eq_some_iff]
  simp only [List.mem_map, Prod.exists, Prod.mk.injEq, Std.ExtTreeMap.mem_toList_iff_getElem?_eq_some]
  constructor
  · rintro ⟨old, hold, rfl⟩
    exact ⟨name, old, hold, rfl, rfl⟩
  · rintro ⟨_, old, hold, rfl, rfl⟩
    exact ⟨old, hold, rfl⟩

end NameMap

/-- The names of tags are listed in code point order, each once. -/
theorem TagMap.pairwise_names (tags : TagMap) : tags.names.Pairwise (· < ·) := by
  rw [names, List.pairwise_map]
  exact (NameMap.pairwise_toList tags.occurrences).filter _

end ApiDescription
