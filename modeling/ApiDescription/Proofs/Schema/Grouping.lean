import ApiDescription.Proofs.Model.Lookup
import ApiDescription.Proofs.NameMaps
import ApiDescription.Proofs.Traversal
import ApiDescription.Schema.Namespace
import Mathlib.Data.List.Induction
import Mathlib.Data.List.Perm.Basic

/-!
# How data types are grouped

Entries are pushed one by one under their URIs, so each URI ends up with its data types in the order of
the entries, and a URI that no entry has is missing. What is done to every data type may be done before
the grouping or after it.

Results:
* `getElem?_group`, `mem_toList_group_iff`: what a URI has after the grouping.
* `flatMap_group_perm`: grouping neither loses nor repeats a data type.
* `toList_group_map`: grouping changed data types changes the data types of the groups.
* `entry_eq_ok_iff`: the entry of a type is its URI and its data type.
* `assemble_eq_ok_iff`: namespaces are the groups of the entries of their types.
-/

namespace ApiDescription.SchemaNamespace

open scoped List

/-- The data types that come with a URI, in the order of the entries. -/
def typesAt (entries : List (String × DataType)) (uri : String) : List DataType :=
  (entries.filter fun e => e.1 = uri).map (·.2)

theorem typesAt_append_singleton (entries : List (String × DataType)) (e : String × DataType)
    (uri : String) :
    typesAt (entries ++ [e]) uri =
      if e.1 = uri then typesAt entries uri ++ [e.2] else typesAt entries uri := by
  unfold typesAt
  by_cases h : e.1 = uri <;> simp [h]

theorem group_append_singleton (entries : List (String × DataType)) (e : String × DataType) :
    group (entries ++ [e]) = (group entries).push e.1 e.2 := by
  unfold group
  rw [List.foldl_append]
  rfl

/-- A URI has its data types in the order of the entries, and is missing if there are none. -/
theorem getElem?_group (entries : List (String × DataType)) (uri : String) :
    (group entries)[uri]? =
      if (typesAt entries uri).isEmpty then none else some (typesAt entries uri) := by
  induction entries using List.reverseRecOn with
  | nil => exact Std.ExtTreeMap.getElem?_empty
  | append_singleton entries e ih =>
    rw [group_append_singleton, NameMap.getElem?_push, typesAt_append_singleton]
    by_cases h : e.1 = uri
    · subst h
      -- a URI that is still missing gets its first data type
      have hold : (group entries).getD e.1 [] = typesAt entries e.1 := by
        rw [Std.ExtTreeMap.getD_eq_getD_getElem?, ih]
        cases typesAt entries e.1 <;> rfl
      rw [hold, if_pos rfl, if_pos rfl, if_neg (by simp)]
    · rw [if_neg h, if_neg h, ih]

theorem mem_typesAt_iff {entries : List (String × DataType)} {uri : String} {type : DataType} :
    type ∈ typesAt entries uri ↔ (uri, type) ∈ entries := by
  simp [typesAt]

/-- A group is a URI with its data types, of which there is at least one. -/
theorem mem_toList_group_iff {entries : List (String × DataType)} {g : String × List DataType} :
    g ∈ (group entries).toList ↔ g.2 ≠ [] ∧ g.2 = typesAt entries g.1 := by
  obtain ⟨uri, types⟩ := g
  rw [Std.ExtTreeMap.mem_toList_iff_getElem?_eq_some, getElem?_group]
  cases typesAt entries uri with
  | nil => simp
  | cons type rest =>
    constructor
    · rintro ⟨⟩
      simp
    · rintro ⟨-, rfl⟩
      rfl

theorem typesAt_cons (e : String × DataType) (entries : List (String × DataType)) (uri : String) :
    typesAt (e :: entries) uri = (if e.1 = uri then [e.2] else []) ++ typesAt entries uri := by
  unfold typesAt
  by_cases h : e.1 = uri <;> simp [h]

/-- Listing the data types URI by URI brings those of all entries, if every URI is listed once. -/
theorem flatMap_typesAt_perm {uris : List String} (hnodup : uris.Nodup)
    {entries : List (String × DataType)} (hall : ∀ e ∈ entries, e.1 ∈ uris) :
    uris.flatMap (typesAt entries) ~ entries.map (·.2) := by
  induction entries with
  | nil => simp [typesAt]
  | cons e entries ih =>
    have hown : (uris.flatMap fun uri => if e.1 = uri then [e.2] else []) = [e.2] := by
      obtain ⟨before, after, rfl⟩ := List.append_of_mem (hall e List.mem_cons_self)
      have hne : e.1 ∉ before ++ after := (List.nodup_middle.mp hnodup).notMem
      have hnone : ∀ uris : List String, e.1 ∉ uris →
          (uris.flatMap fun uri => if e.1 = uri then [e.2] else []) = [] := by
        intro uris hnot
        refine List.flatMap_eq_nil_iff.mpr fun uri huri => if_neg ?_
        rintro rfl
        exact hnot huri
      rw [List.flatMap_append, List.flatMap_cons, if_pos rfl,
        hnone before fun hb => hne (List.mem_append_left after hb),
        hnone after fun ha => hne (List.mem_append_right before ha)]
      rfl
    calc uris.flatMap (typesAt (e :: entries))
      _ = uris.flatMap fun uri => (if e.1 = uri then [e.2] else []) ++ typesAt entries uri :=
        congrArg uris.flatMap (funext (typesAt_cons e entries))
      _ ~ (uris.flatMap fun uri => if e.1 = uri then [e.2] else []) ++
          uris.flatMap (typesAt entries) := (List.flatMap_append_perm uris _ _).symm
      _ ~ e.2 :: entries.map (·.2) := by
        rw [hown]
        exact (ih fun e' he' => hall e' (List.mem_cons_of_mem e he')).cons e.2

/-- Grouping keeps every data type, as often as it is there. -/
theorem flatMap_group_perm (entries : List (String × DataType)) :
    (group entries).toList.flatMap (·.2) ~ entries.map (·.2) := by
  have huris : ((group entries).toList.map (·.1)).Nodup := by
    refine List.pairwise_map.mpr ((NameMap.pairwise_toList (group entries)).imp fun {a b} hlt he => ?_)
    exact String.lt_irrefl _ (he ▸ hlt)
  have hall : ∀ e ∈ entries, e.1 ∈ (group entries).toList.map (·.1) := by
    intro e he
    have hmem : e.2 ∈ typesAt entries e.1 := mem_typesAt_iff.mpr he
    exact List.mem_map.mpr ⟨(e.1, typesAt entries e.1),
      mem_toList_group_iff.mpr ⟨List.ne_nil_of_mem hmem, rfl⟩, rfl⟩
  have hgroups : (group entries).toList.flatMap (·.2) =
      ((group entries).toList.map (·.1)).flatMap (typesAt entries) := by
    rw [List.flatMap_map]
    exact List.flatMap_congr fun g hg => (mem_toList_group_iff.mp hg).2
  rw [hgroups]
  exact flatMap_typesAt_perm huris hall

theorem typesAt_map (f : DataType → DataType) (entries : List (String × DataType)) (uri : String) :
    typesAt (entries.map fun e => (e.1, f e.2)) uri = (typesAt entries uri).map f := by
  unfold typesAt
  rw [List.filter_map, List.map_map, List.map_map]
  rfl

/-- Data types may be changed before they are grouped or after. -/
theorem toList_group_map (f : DataType → DataType) (entries : List (String × DataType)) :
    (group (entries.map fun e => (e.1, f e.2))).toList =
      (group entries).toList.map fun g => (g.1, g.2.map f) := by
  refine NameMap.toList_eq_map fun uri => ?_
  rw [getElem?_group, getElem?_group, typesAt_map]
  cases typesAt entries uri <;> rfl

variable {filter : AccessorFilter} {model : Model} {ids : List DeclId} {id : DeclId}
  {spaces : List SchemaNamespace}

theorem entry_eq_ok_iff {e : String × DataType} :
    entry filter model id = .ok e ↔ DataType.ofModel filter model id = .ok e.2 ∧
      ∃ d, model.get? id = some d ∧ uriOf d = e.1 := by
  obtain ⟨uri, t⟩ := e
  simp only [entry, bind_eq_ok_iff, Model.decl_eq_ok_iff, pure, Except.pure, Except.ok.injEq,
    Prod.mk.injEq]
  constructor
  · rintro ⟨_, ht, d, hd, rfl, rfl⟩
    exact ⟨ht, d, hd, rfl⟩
  · rintro ⟨ht, d, hd, rfl⟩
    exact ⟨t, ht, d, hd, rfl, rfl⟩

theorem assemble_eq_ok_iff :
    assemble filter model ids = .ok spaces ↔ ∃ entries,
      ids.map (entry filter model) = entries.map .ok ∧
        spaces = (group entries).toList.map fun g => ⟨g.1, g.2⟩ := by
  unfold assemble
  rw [bind_eq_ok_iff]
  constructor
  · rintro ⟨entries, hm, hs⟩
    exact ⟨entries, mapM_eq_ok_iff.mp hm, (Except.ok.inj hs).symm⟩
  · rintro ⟨entries, hm, rfl⟩
    exact ⟨entries, mapM_eq_ok_iff.mpr hm, rfl⟩

end ApiDescription.SchemaNamespace
