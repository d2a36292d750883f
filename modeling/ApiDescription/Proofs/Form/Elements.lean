import ApiDescription.NameMap
import ApiDescription.Tag.Basic
import Mathlib.Data.List.Induction
import Mathlib.Data.List.Nodup

/-!
# The elements of a tag in order

A tag keeps its elements in the order of their names, each name once. `InOrder` says so of a list, and
every operation that makes or changes a tag keeps it.

* `inOrder_setElement`, `inOrder_ofElements`: setting an element keeps the order, and so does setting
  one after the other.
* `ofElements_eq_of_inOrder`: elements in order are kept as they stand.
* `get?_ofElements`: of several elements with one name the last counts.
* `lookup_eq_some_iff_mem`, `lookup_reverse`: look-up among pairs with distinct names.
-/

namespace ApiDescription.Tag

/-! ## Pairs with distinct names -/

section Pairs

variable {α : Type} {pairs : List (String × α)}

theorem mem_of_lookup_eq_some {name : String} {value : α} (h : pairs.lookup name = some value) :
    (name, value) ∈ pairs := by
  obtain ⟨before, after, rfl, -⟩ := List.lookup_eq_some_iff.mp h
  simp

theorem lookup_eq_some_iff_mem (hd : (pairs.map (·.1)).Nodup) {name : String} {value : α} :
    pairs.lookup name = some value ↔ (name, value) ∈ pairs := by
  refine ⟨mem_of_lookup_eq_some, fun h => ?_⟩
  induction pairs with
  | nil => cases h
  | cons pair rest ih =>
    obtain ⟨key, first⟩ := pair
    obtain ⟨hn, hd⟩ := List.nodup_cons.mp hd
    rw [lookup_cons_eq_ite]
    rcases List.mem_cons.mp h with he | hm
    · obtain ⟨rfl, rfl⟩ := Prod.mk.inj he
      exact if_pos rfl
    · rw [if_neg fun he => hn (List.mem_map.mpr ⟨_, hm, he⟩)]
      exact ih hd hm

theorem lookup_reverse (hd : (pairs.map (·.1)).Nodup) (name : String) :
    pairs.reverse.lookup name = pairs.lookup name := by
  have hr : (pairs.reverse.map (·.1)).Nodup := by
    rw [List.map_reverse]
    exact List.nodup_reverse.mpr hd
  refine Option.ext fun value => ?_
  rw [lookup_eq_some_iff_mem hr, lookup_eq_some_iff_mem hd, List.mem_reverse]

end Pairs

/-! ## The order -/

/-- The names of the elements are in code point order, each once. -/
def InOrder (elements : List (String × TagValue)) : Prop :=
  elements.Pairwise (·.1 < ·.1)

theorem InOrder.nodup {elements : List (String × TagValue)} (h : InOrder elements) :
    (elements.map (·.1)).Nodup :=
  List.pairwise_map.mpr (h.imp fun {a _} hlt (he : a.1 = _) => String.lt_irrefl _ (he ▸ hlt))

theorem mem_of_mem_setElement {name : String} {value : TagValue}
    {elements : List (String × TagValue)} {e : String × TagValue}
    (h : e ∈ setElement name value elements) : e = (name, value) ∨ e ∈ elements := by
  induction elements with
  | nil => exact .inl (List.mem_singleton.mp h)
  | cons old rest ih =>
    unfold setElement at h
    split at h
    · exact List.mem_cons.mp h
    · exact (List.mem_cons.mp h).imp_right (List.mem_cons_of_mem _)
    · rcases List.mem_cons.mp h with rfl | h
      · exact .inr List.mem_cons_self
      · exact (ih h).imp_right (List.mem_cons_of_mem _)

theorem inOrder_setElement {elements : List (String × TagValue)} (h : InOrder elements)
    (name : String) (value : TagValue) : InOrder (setElement name value elements) := by
  induction elements with
  | nil => exact List.pairwise_singleton _ _
  | cons old rest ih =>
    obtain ⟨hlt, hrest⟩ := List.pairwise_cons.mp h
    unfold setElement
    split
    · next hc =>
      have hfirst := NameMap.compare_eq_lt_iff.mp hc
      refine List.pairwise_cons.mpr ⟨?_, h⟩
      exact List.forall_mem_cons.mpr ⟨hfirst, fun e he => String.lt_trans hfirst (hlt e he)⟩
    · next hc =>
      obtain rfl := Std.LawfulEqOrd.eq_of_compare hc
      exact List.pairwise_cons.mpr ⟨hlt, hrest⟩
    · next hc =>
      have hlast := NameMap.compare_eq_lt_iff.mp (Std.OrientedCmp.gt_iff_lt.mp hc)
      refine List.pairwise_cons.mpr ⟨fun e he => ?_, ih hrest⟩
      rcases mem_of_mem_setElement he with rfl | he
      · exact hlast
      · exact hlt e he

/-- An element whose name comes last is put at the end. -/
theorem setElement_eq_append {elements : List (String × TagValue)} {name : String}
    (h : ∀ e ∈ elements, e.1 < name) (value : TagValue) :
    setElement name value elements = elements ++ [(name, value)] := by
  induction elements with
  | nil => rfl
  | cons old rest ih =>
    obtain ⟨hold, hrest⟩ := List.forall_mem_cons.mp h
    have hc : compare name old.1 = .gt :=
      Std.OrientedCmp.gt_iff_lt.mpr (NameMap.compare_eq_lt_iff.mpr hold)
    rw [setElement, hc, ih hrest, List.cons_append]

/-! ## Tags of lists of elements -/

theorem ofElements_append_singleton (elements : List (String × TagValue)) (e : String × TagValue) :
    ofElements (elements ++ [e]) = (ofElements elements).set e.1 e.2 :=
  List.foldl_append

theorem inOrder_ofElements (elements : List (String × TagValue)) :
    InOrder (ofElements elements).elements := by
  induction elements using List.reverseRecOn with
  | nil => exact List.Pairwise.nil
  | append_singleton elements e ih =>
    rw [ofElements_append_singleton]
    exact inOrder_setElement ih e.1 e.2

theorem ofElements_eq_of_inOrder {elements : List (String × TagValue)} (h : InOrder elements) :
    ofElements elements = ⟨elements⟩ := by
  induction elements using List.reverseRecOn with
  | nil => rfl
  | append_singleton elements e ih =>
    obtain ⟨hinit, -, hlast⟩ := List.pairwise_append.mp h
    rw [ofElements_append_singleton, ih hinit, set]
    exact congrArg Tag.mk
      (setElement_eq_append (fun e' he => hlast e' he e (List.mem_singleton_self e)) e.2)

theorem get?_ofElements (elements : List (String × TagValue)) (name : String) :
    (ofElements elements).get? name = elements.reverse.lookup name := by
  induction elements using List.reverseRecOn with
  | nil => rfl
  | append_singleton elements e ih =>
    rw [ofElements_append_singleton, get?_set, ih, List.reverse_append, List.reverse_singleton,
      List.singleton_append, lookup_cons_eq_ite]

theorem mem_of_mem_ofElements {elements : List (String × TagValue)} {e : String × TagValue}
    (h : e ∈ (ofElements elements).elements) : e ∈ elements := by
  have hg := (lookup_eq_some_iff_mem (inOrder_ofElements elements).nodup).mpr h
  rw [← get?, get?_ofElements] at hg
  exact List.mem_reverse.mp (mem_of_lookup_eq_some hg)

end ApiDescription.Tag
