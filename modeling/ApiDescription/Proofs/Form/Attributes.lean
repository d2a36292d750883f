import ApiDescription.Json.Fields
import ApiDescription.Proofs.Traversal

/-!
# Reading what was written: values and attributes

What the forms of types, tags and declarations have in common. A list reads back if its items do, a map
if its values do, and an attribute of an object is found among fields with distinct keys by its key.

* `Inside` tells where a JSON value has another one in it, and `DistinctKeys` says that no object in
  it repeats a key; `nestedInduction` is the induction over values that goes with both.
* `readable_arr_iff`, `readable_obj_iff`: a value is readable if its parts are.
* `list?_map_eq_some_iff`, `nameMap?_ofNameMap_eq_some_iff`: lists and maps read back iff their parts
  do.
* `exists_inside_of_list?`, `exists_inside_of_nameMap?`, `mem_of_required?_eq_some`,
  `mem_of_optional?_eq_some`: what was read stood somewhere in the value.
* `required?_eq_of_mem`, `optional?_eq_of_mem`: among distinct keys an attribute is read from the field
  of its key.
-/

namespace ApiDescription.Json

/-! ## Values inside values -/

/-- One value stands somewhere inside another, or is that value. -/
inductive Inside (w : Json) : Json → Prop where
  | here : Inside w w
  | item {j : Json} {items : List Json} (hm : j ∈ items) (h : Inside w j) : Inside w (.arr items)
  | field {f : String × Json} {fields : List (String × Json)} (hm : f ∈ fields)
      (h : Inside w f.2) : Inside w (.obj fields)

theorem Inside.trans {i j k : Json} (hij : Inside i j) (hjk : Inside j k) : Inside i k := by
  induction hjk with
  | here => exact hij
  | item hm _ ih => exact .item hm ih
  | field hm _ ih => exact .field hm ih

/-- No object inside a value repeats a key. -/
def DistinctKeys (j : Json) : Prop :=
  ∀ fields, Inside (.obj fields) j → (fields.map (·.1)).Nodup

theorem DistinctKeys.of_inside {i j : Json} (hj : j.DistinctKeys) (h : Inside i j) :
    i.DistinctKeys :=
  fun fields hf => hj fields (hf.trans h)

theorem distinctKeys_arr_iff {items : List Json} :
    DistinctKeys (.arr items) ↔ ∀ j ∈ items, j.DistinctKeys := by
  constructor
  · intro h j hj fields hf
    exact h fields (.item hj hf)
  · intro h fields hf
    cases hf with
    | item hm hf => exact h _ hm fields hf

theorem distinctKeys_obj_iff {fields : List (String × Json)} :
    DistinctKeys (.obj fields) ↔ (fields.map (·.1)).Nodup ∧ ∀ f ∈ fields, f.2.DistinctKeys := by
  constructor
  · intro h
    exact ⟨h fields .here, fun f hm inner hf => h inner (.field hm hf)⟩
  · rintro ⟨hnd, h⟩ inner hf
    cases hf with
    | here => exact hnd
    | field hm hf => exact h _ hm inner hf

section Induction

variable {P : Json → Prop}

mutual

/-- Induction over a value: what holds of a list or an object as soon as it holds of the values in it
holds of every value. -/
@[elab_as_elim] theorem nestedInduction (null : P .null) (bool : ∀ b, P (.bool b))
    (int : ∀ n, P (.int n)) (real : ∀ literal, P (.real literal)) (str : ∀ s, P (.str s))
    (arr : ∀ items, (∀ j ∈ items, P j) → P (.arr items))
    (obj : ∀ fields, (∀ f ∈ fields, P f.2) → P (.obj fields)) (unreadable : P .unreadable) :
    ∀ j, P j
  | .null => null
  | .bool b => bool b
  | .int n => int n
  | .real literal => real literal
  | .str s => str s
  | .arr items => arr items (items_induction null bool int real str arr obj unreadable items)
  | .obj fields => obj fields (fields_induction null bool int real str arr obj unreadable fields)
  | .unreadable => unreadable

theorem items_induction (null : P .null) (bool : ∀ b, P (.bool b))
    (int : ∀ n, P (.int n)) (real : ∀ literal, P (.real literal)) (str : ∀ s, P (.str s))
    (arr : ∀ items, (∀ j ∈ items, P j) → P (.arr items))
    (obj : ∀ fields, (∀ f ∈ fields, P f.2) → P (.obj fields)) (unreadable : P .unreadable) :
    ∀ items : List Json, ∀ j ∈ items, P j
  | [] => by simp
  | j :: rest => List.forall_mem_cons.mpr
      ⟨nestedInduction null bool int real str arr obj unreadable j,
        items_induction null bool int real str arr obj unreadable rest⟩

theorem fields_induction (null : P .null) (bool : ∀ b, P (.bool b))
    (int : ∀ n, P (.int n)) (real : ∀ literal, P (.real literal)) (str : ∀ s, P (.str s))
    (arr : ∀ items, (∀ j ∈ items, P j) → P (.arr items))
    (obj : ∀ fields, (∀ f ∈ fields, P f.2) → P (.obj fields)) (unreadable : P .unreadable) :
    ∀ fields : List (String × Json), ∀ f ∈ fields, P f.2
  | [] => by simp
  | (_, j) :: rest => List.forall_mem_cons.mpr
      ⟨nestedInduction null bool int real str arr obj unreadable j,
        fields_induction null bool int real str arr obj unreadable rest⟩

end

end Induction

/-! ## Readability -/

theorem readableItems_iff {items : List Json} :
    readableItems items = true ↔ ∀ j ∈ items, j.readable = true := by
  induction items with
  | nil => simp [readableItems]
  | cons j rest ih => simp [readableItems, ih]

theorem readableFields_iff {fields : List (String × Json)} :
    readableFields fields = true ↔ ∀ f ∈ fields, f.2.readable = true := by
  induction fields with
  | nil => simp [readableFields]
  | cons f rest ih => simp [readableFields, ih]

theorem readable_arr_iff {items : List Json} :
    (Json.arr items).readable = true ↔ ∀ j ∈ items, j.readable = true := by
  rw [readable, readableItems_iff]

theorem readable_obj_iff {fields : List (String × Json)} :
    (Json.obj fields).readable = true ↔ ∀ f ∈ fields, f.2.readable = true := by
  rw [readable, readableFields_iff]

variable {α : Type} {read : Json → Option α} {write : α → Json}

theorem readable_map (h : ∀ a, (write a).readable = true) (xs : List α) :
    (Json.arr (xs.map write)).readable = true :=
  readable_arr_iff.mpr (List.forall_mem_map.mpr fun a _ => h a)

theorem readable_ofNameMap (h : ∀ a, (write a).readable = true) (m : NameMap α) :
    (ofNameMap write m).readable = true :=
  readable_obj_iff.mpr (List.forall_mem_map.mpr fun e _ => h e.2)

theorem readable_ofOption (h : ∀ a, (write a).readable = true) (o : Option α) :
    (ofOption write o).readable = true := by
  cases o with
  | none => rfl
  | some a => exact h a

/-! ## Lists and maps -/

theorem list?_eq_some_iff {j : Json} {xs : List α} :
    list? read j = some xs ↔ ∃ items, j = .arr items ∧ items.map read = xs.map some := by
  cases j <;> simp [list?, mapM_eq_some_iff]

theorem list?_map_eq_some_iff {xs : List α} :
    list? read (.arr (xs.map write)) = some xs ↔ ∀ x ∈ xs, read (write x) = some x := by
  rw [list?, mapM_eq_some_iff, List.map_map, List.map_inj_left]
  rfl

theorem nameMap?_eq_some_iff {j : Json} {m : NameMap α} :
    nameMap? read j = some m ↔ ∃ fields pairs, j = .obj fields ∧
      (fields.mapM fun f => return (f.1, ← read f.2)) = some pairs ∧
        m = NameMap.ofPairs pairs := by
  cases j with
  | obj fields =>
    rw [nameMap?, Option.map_eq_map, Option.map_eq_some_iff]
    constructor
    · rintro ⟨pairs, hp, rfl⟩
      exact ⟨fields, pairs, rfl, hp, rfl⟩
    · rintro ⟨_, pairs, hj, hp, rfl⟩
      obtain rfl := Json.obj.inj hj
      exact ⟨pairs, hp, rfl⟩
  | _ => simp [nameMap?]

/-- Every item that was read comes from an item. -/
theorem exists_inside_of_list? {j : Json} {xs : List α} {x : α} (h : list? read j = some xs)
    (hx : x ∈ xs) : ∃ i, Inside i j ∧ read i = some x := by
  obtain ⟨items, rfl, hm⟩ := list?_eq_some_iff.mp h
  obtain ⟨i, hi, hr⟩ := List.mem_map.mp (hm ▸ List.mem_map_of_mem hx)
  exact ⟨i, .item hi .here, hr⟩

/-- Every value of a map that was read comes from a field. -/
theorem exists_inside_of_nameMap? {j : Json} {m : NameMap α} {name : String} {a : α}
    (h : nameMap? read j = some m) (ha : m[name]? = some a) :
    ∃ i, Inside i j ∧ read i = some a := by
  obtain ⟨fields, pairs, rfl, hp, rfl⟩ := nameMap?_eq_some_iff.mp h
  obtain ⟨f, hf, -, hr⟩ := exists_pair_of_mem hp (NameMap.mem_of_getElem?_ofPairs ha)
  exact ⟨f.2, .field hf .here, hr⟩

theorem nameMap?_ofNameMap_eq_some_iff {m : NameMap α} :
    nameMap? read (ofNameMap write m) = some m ↔
      ∀ (name : String) (a : α), m[name]? = some a → read (write a) = some a := by
  constructor
  · intro h name a ha
    obtain ⟨_, pairs, hj, hp, hm⟩ := nameMap?_eq_some_iff.mp h
    obtain rfl := Json.obj.inj hj
    have hmem := Std.ExtTreeMap.mem_toList_iff_getElem?_eq_some.mpr ha
    obtain ⟨b, hb, hr⟩ := exists_snd_of_mem hp (List.mem_map_of_mem hmem)
    -- the keys of the pairs are those of the map, so the last pair of a name is the only one
    have hdistinct : pairs.Pairwise fun a b => ¬ compare a.1 b.1 = .eq := by
      rw [← List.pairwise_map (f := Prod.fst) (R := fun a b => ¬ compare a b = .eq),
        ← (mapM_snd_eq_some_iff.mp hp).1, List.map_map]
      exact List.pairwise_map.mpr m.distinct_keys_toList
    have hget : m[name]? = some b :=
      hm ▸ Std.ExtTreeMap.getElem?_ofList_of_mem Std.ReflCmp.compare_self hdistinct hb
    obtain rfl := Option.some.inj (ha.symm.trans hget)
    exact hr
  · intro h
    refine nameMap?_eq_some_iff.mpr
      ⟨_, m.toList, rfl, mapM_snd_eq_some_iff.mpr ⟨?_, ?_⟩, (NameMap.ofPairs_toList m).symm⟩
    · rw [List.map_map]
      rfl
    · rw [List.map_map]
      refine List.map_congr_left fun e he => ?_
      exact h e.1 e.2 (Std.ExtTreeMap.mem_toList_iff_getElem?_eq_some.mp he)

/-! ## Attributes -/

variable {fields : List (String × Json)} {key : String}

/-- Among distinct keys, a key has no field but its own. -/
theorem filter_eq_of_mem (hd : (fields.map (·.1)).Nodup) {value : Json}
    (hm : (key, value) ∈ fields) : fields.filter (·.1 = key) = [(key, value)] := by
  induction fields with
  | nil => cases hm
  | cons f rest ih =>
    obtain ⟨hn, hd⟩ := List.nodup_cons.mp hd
    rcases List.mem_cons.mp hm with rfl | hm
    · rw [List.filter_cons_of_pos (by simp), List.filter_eq_nil_iff.mpr]
      intro g hg he
      exact hn (List.mem_map.mpr ⟨g, hg, of_decide_eq_true he⟩)
    · have hne : f.1 ≠ key := fun he => hn (List.mem_map.mpr ⟨_, hm, he.symm⟩)
      rw [List.filter_cons_of_neg (by simpa using hne), ih hd hm]

theorem required?_eq_of_mem (hd : (fields.map (·.1)).Nodup) {value : Json}
    (hm : (key, value) ∈ fields) : required? fields key read = read value := by
  rw [required?, filter_eq_of_mem hd hm]

theorem optional?_eq_of_mem (hd : (fields.map (·.1)).Nodup) {value : Json} {default : α}
    (hm : (key, value) ∈ fields) : optional? fields key default read = read value := by
  rw [optional?, filter_eq_of_mem hd hm]

theorem mem_of_required?_eq_some {a : α} (h : required? fields key read = some a) :
    ∃ f ∈ fields, read f.2 = some a := by
  unfold required? at h
  split at h
  · next f value hf => exact ⟨_, (List.mem_filter.mp (hf ▸ List.mem_singleton_self _)).1, h⟩
  · cases h

theorem mem_of_optional?_eq_some {default a : α} (h : optional? fields key default read = some a) :
    a = default ∨ ∃ f ∈ fields, read f.2 = some a := by
  unfold optional? at h
  split at h
  · exact .inl (Option.some.inj h).symm
  · next f value hf => exact .inr ⟨_, (List.mem_filter.mp (hf ▸ List.mem_singleton_self _)).1, h⟩
  · cases h

end ApiDescription.Json
