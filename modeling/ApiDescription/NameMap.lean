import Std.Data.ExtTreeMap

/-!
# Maps keyed by names

Names are ordered by code point, and so is every listing of a map. Two maps with the same entries
are equal, in whatever order the entries were given.

* `NameMap.getElem?_push`: pushing to a name extends its list and leaves the other names alone.
* `NameMap.getElem?_ofPairs`: of several pairs with one name the last counts.
* `ofList_toList`, `NameMap.ofPairs_toList`: a map is the map of its listing.
-/

namespace ApiDescription

/-- A map with ordered keys is the map of its listing. -/
theorem ofList_toList {κ α : Type} [Ord κ] [Std.TransOrd κ] [Std.LawfulEqOrd κ] [DecidableEq κ]
    (m : Std.ExtTreeMap κ α) : Std.ExtTreeMap.ofList m.toList = m := by
  refine Std.ExtTreeMap.ext_getElem? fun {key} => ?_
  cases h : m[key]? with
  | some value =>
    exact Std.ExtTreeMap.getElem?_ofList_of_mem Std.ReflCmp.compare_self m.distinct_keys_toList
      (Std.ExtTreeMap.mem_toList_iff_getElem?_eq_some.mpr h)
  | none =>
    refine Std.ExtTreeMap.getElem?_ofList_of_contains_eq_false ?_
    rw [Std.ExtTreeMap.map_fst_toList_eq_keys, List.contains_eq_mem, decide_eq_false_iff_not,
      Std.ExtTreeMap.mem_keys]
    intro hm
    rw [Std.ExtTreeMap.getElem?_eq_some_getElem hm] at h
    cases h

/-- A finite map from names, listed in code point order. -/
abbrev NameMap (α : Type) := Std.ExtTreeMap String α

namespace NameMap

variable {α : Type}

/-- The map of a list of pairs, where a later pair replaces an earlier one of the same name. -/
def ofPairs (pairs : List (String × α)) : NameMap α :=
  Std.ExtTreeMap.ofList pairs

/-- Puts a value at the end of the list kept under a name, which need not be present yet. -/
def push (m : NameMap (List α)) (name : String) (value : α) : NameMap (List α) :=
  m.insert name (m.getD name [] ++ [value])

theorem compare_eq_lt_iff {a b : String} : compare a b = .lt ↔ a < b :=
  compareOfLessAndEq_eq_lt

theorem getElem?_push (m : NameMap (List α)) (name : String) (value : α) (other : String) :
    (m.push name value)[other]? =
      if name = other then some (m.getD name [] ++ [value]) else m[other]? := by
  simp [push, Std.ExtTreeMap.getElem?_insert]

theorem getElem?_ofPairs (pairs : List (String × α)) (name : String) :
    (ofPairs pairs)[name]? = pairs.reverse.lookup name := by
  rw [ofPairs, Std.ExtTreeMap.ofList_eq_insertMany_empty, Std.ExtTreeMap.getElem?_insertMany_list,
    Std.ExtTreeMap.getElem?_empty, Option.or_none, List.findSomeRev?_eq_findSome?_reverse]
  induction pairs.reverse with
  | nil => rfl
  | cons pair rest ih =>
    obtain ⟨key, value⟩ := pair
    rw [List.findSome?_cons, List.lookup_cons, ih]
    by_cases hk : name = key
    · simp [hk]
    · have hc : compare key name ≠ .eq := fun h => hk (Std.LawfulEqOrd.eq_of_compare h).symm
      simp [beq_false_of_ne hk, hc]

theorem mem_of_getElem?_ofPairs {pairs : List (String × α)} {name : String} {value : α}
    (h : (ofPairs pairs)[name]? = some value) : (name, value) ∈ pairs := by
  rw [getElem?_ofPairs] at h
  obtain ⟨before, after, hl, -⟩ := List.lookup_eq_some_iff.mp h
  rw [← List.mem_reverse, hl]
  simp

theorem ofPairs_toList (m : NameMap α) : ofPairs m.toList = m :=
  ofList_toList m

end NameMap

end ApiDescription
