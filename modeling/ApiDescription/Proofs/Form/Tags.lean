import ApiDescription.Proofs.Form.TagValues

/-!
# Reading tags back

A value of a tag is lost exactly where something in it looks like a type without being one. That never
happens to a value that was itself read, if no object repeated a key: written again it is the same to a
reader of types, whatever was normalized inside it.

Results:
* `TagValue.ofJson?_toJson_iff`, `Tag.ofJson?_toJson_iff`: a value, or a tag, reads back iff it is
  `Unambiguous`.
* `TagValue.alike_toJson_of_ofJson?`: reading and writing keeps what a reader of types sees.
* `TagValue.unambiguous_of_ofJson?`, `Tag.unambiguous_of_ofJson?`: what was read is unambiguous.
* `TagMap.ofJson?_toJson_iff`: the tags of a declaration read back iff each of them does.
-/

namespace ApiDescription

namespace TagValue

open Json TypeRef

/-! ## Reading back -/

/-- Nothing inside the value looks like a type but the types. -/
def Unambiguous (v : TagValue) : Prop :=
  ∀ w, Inside w v → w.TypeLike → ∃ t, w = .type t

theorem unambiguous_tag_iff {elements : List (String × TagValue)} :
    Unambiguous (.tag elements) ↔
      ¬ (TagValue.tag elements).TypeLike ∧ ∀ e ∈ elements, e.2.Unambiguous := by
  constructor
  · intro h
    refine ⟨fun hl => ?_, fun e hm w hi => h w (.element hm hi)⟩
    obtain ⟨t, ht⟩ := h _ .here hl
    cases ht
  · rintro ⟨hl, h⟩ w hi
    cases hi with
    | here => exact fun hw => absurd hw hl
    | element hm hi => exact h _ hm w hi

theorem unambiguous_list_iff {items : List TagValue} :
    Unambiguous (.list items) ↔
      ¬ (TagValue.list items).TypeLike ∧ ∀ v ∈ items, v.Unambiguous := by
  constructor
  · intro h
    refine ⟨fun hl => ?_, fun v hm w hi => h w (.item hm hi)⟩
    obtain ⟨t, ht⟩ := h _ .here hl
    cases ht
  · rintro ⟨hl, h⟩ w hi
    cases hi with
    | here => exact fun hw => absurd hw hl
    | item hm hi => exact h _ hm w hi

theorem ofJson?_int {n : Int} {x : TagValue} (h : ofJson? (.int n) = some x) :
    ∃ k : Int64, x = .int k ∧ k.toInt = n := by
  rw [ofJson?] at h
  split at h
  · next hn =>
    refine ⟨_, (Option.some.inj h).symm, Int64.toInt_ofInt_of_le ?_ ?_⟩
    · exact hn.1
    · exact Int.lt_of_le_of_lt hn.2 (by decide)
  · cases h

theorem ofJson?_toJson_int (n : Int64) : ofJson? (toJson (.int n)) = some (.int n) := by
  rw [toJson, ofJson?, if_pos ⟨Int64.le_toInt n, Int.le_of_lt_add_one (Int64.toInt_lt n)⟩,
    Int64.ofInt_toInt]

theorem ofJson?_toJson_type (t : TypeRef) : ofJson? (toJson (.type t)) = some (.type t) := by
  obtain ⟨fields, ht⟩ := exists_toJson_eq_obj t
  have hn := nested?_toJson t
  rw [ht] at hn
  rw [toJson, ht, ofJson?, hn]

theorem ofJson?_obj_eq_some_iff {fields : List (String × Json)} {v : TagValue} :
    ofJson? (.obj fields) = some v ↔ (∃ t, nested? (.obj fields) = some t ∧ v = .type t) ∨
      nested? (.obj fields) = none ∧ ∃ elements,
        (fields.mapM fun f => return (f.1, ← ofJson? f.2)) = some elements ∧
          v = .tag (Tag.ofElements elements).elements := by
  rw [ofJson?, ofFields?_eq_mapM]
  cases nested? (.obj fields) with
  | some t => simp [eq_comm]
  | none => simp [Option.bind_eq_some_iff, eq_comm (a := v)]

theorem ofJson?_arr_eq_some_iff {items : List Json} {v : TagValue} :
    ofJson? (.arr items) = some v ↔ (∃ t, nested? (.arr items) = some t ∧ v = .type t) ∨
      nested? (.arr items) = none ∧ ∃ values, items.map ofJson? = values.map some ∧
        v = .list values := by
  rw [ofJson?, ofItems?_eq_mapM]
  cases nested? (.arr items) with
  | some t => simp [eq_comm]
  | none => simp [Option.bind_eq_some_iff, mapM_eq_some_iff, eq_comm (a := v)]

theorem nested?_toJson_eq_none_iff {v : TagValue} (ho : v.Ordered) :
    nested? v.toJson = none ↔ ¬ v.TypeLike := by
  rw [← exists_nested?_toJson_iff ho, ← Option.isSome_iff_exists, Option.not_isSome_iff_eq_none]

/-- The elements of a tag read back exactly if their values do. -/
theorem exists_read_toFields_iff {elements : List (String × TagValue)}
    (hin : Tag.InOrder elements) :
    (∃ read, ((toFields elements).mapM fun f => return (f.1, ← ofJson? f.2)) = some read ∧
        (Tag.ofElements read).elements = elements) ↔
      ∀ e ∈ elements, ofJson? e.2.toJson = some e.2 := by
  have hkeys := keys_toFields elements
  have hvalues : (toFields elements).map (ofJson? ·.2) = elements.map (some ·.2) ↔
      ∀ e ∈ elements, ofJson? e.2.toJson = some e.2 := by
    rw [toFields_eq_map, List.map_map, List.map_inj_left]
    rfl
  rw [← hvalues]
  constructor
  · rintro ⟨read, hm, he⟩
    obtain ⟨hk, hv⟩ := mapM_snd_eq_some_iff.mp hm
    have hread : Tag.InOrder read := by
      rw [Tag.InOrder, ← List.pairwise_map (f := Prod.fst) (R := (· < ·)), ← hk, hkeys]
      exact List.pairwise_map.mpr hin
    rw [Tag.ofElements_eq_of_inOrder hread] at he
    exact he ▸ hv
  · intro hv
    refine ⟨elements, mapM_snd_eq_some_iff.mpr ⟨hkeys, hv⟩, ?_⟩
    rw [Tag.ofElements_eq_of_inOrder hin]

/-- **A value survives being written and read exactly if nothing in it looks like a type without being
one.** -/
theorem ofJson?_toJson_iff {v : TagValue} (ho : v.Ordered) :
    ofJson? v.toJson = some v ↔ v.Unambiguous := by
  induction v using nestedInduction with
  | bool b =>
    refine iff_of_true rfl fun w hi hl => ?_
    cases hi
    cases hl
  | int n =>
    refine iff_of_true (ofJson?_toJson_int n) fun w hi hl => ?_
    cases hi
    cases hl
  | str s =>
    refine iff_of_true rfl fun w hi hl => ?_
    cases hi
    cases hl
  | type t =>
    refine iff_of_true (ofJson?_toJson_type t) fun w hi _ => ?_
    cases hi
    exact ⟨t, rfl⟩
  | tag elements ih =>
    obtain ⟨hin, hparts⟩ := ordered_tag_iff.mp ho
    have ih := forall₂_congr fun e he => ih e he (hparts e he)
    rw [unambiguous_tag_iff, ← nested?_toJson_eq_none_iff ho, ← ih, ← exists_read_toFields_iff hin,
      toJson, ofJson?_obj_eq_some_iff]
    constructor
    · rintro (⟨t, -, ht⟩ | ⟨hn, read, hm, he⟩)
      · cases ht
      · exact ⟨hn, read, hm, (TagValue.tag.inj he).symm⟩
    · rintro ⟨hn, read, hm, he⟩
      exact .inr ⟨hn, read, hm, congrArg TagValue.tag he.symm⟩
  | list items ih =>
    have ih := forall₂_congr fun v hv => ih v hv (ordered_list_iff.mp ho v hv)
    have hvalues : (toJsons items).map ofJson? = items.map some ↔
        ∀ v ∈ items, ofJson? v.toJson = some v := by
      rw [toJsons_eq_map, List.map_map, List.map_inj_left]
      rfl
    rw [unambiguous_list_iff, ← nested?_toJson_eq_none_iff ho, ← ih, ← hvalues, toJson,
      ofJson?_arr_eq_some_iff]
    constructor
    · rintro (⟨t, -, ht⟩ | ⟨hn, read, hm, he⟩)
      · cases ht
      · obtain rfl := TagValue.list.inj he
        exact ⟨hn, hm⟩
    · rintro ⟨hn, hv⟩
      exact .inr ⟨hn, items, hv, rfl⟩

/-! ## Values that were read -/

/-- Every value inside one that was read was read from a part. -/
theorem exists_inside_of_inside {j : Json} {v w : TagValue} (h : ofJson? j = some v)
    (hw : Inside w v) : ∃ i, Json.Inside i j ∧ ofJson? i = some w := by
  induction j using Json.nestedInduction generalizing v with
  | obj fields ih =>
    rcases ofJson?_obj_eq_some_iff.mp h with ⟨t, -, rfl⟩ | ⟨-, read, hm, rfl⟩
    · cases hw
      exact ⟨_, .here, h⟩
    · cases hw with
      | here => exact ⟨_, .here, h⟩
      | element he hw =>
        obtain ⟨f, hf, -, hr⟩ := exists_pair_of_mem hm (Tag.mem_of_mem_ofElements he)
        obtain ⟨i, hi, hr⟩ := ih f hf hr hw
        exact ⟨i, .field hf hi, hr⟩
  | arr items ih =>
    rcases ofJson?_arr_eq_some_iff.mp h with ⟨t, -, rfl⟩ | ⟨-, read, hm, rfl⟩
    · cases hw
      exact ⟨_, .here, h⟩
    · cases hw with
      | here => exact ⟨_, .here, h⟩
      | item hv hw =>
        obtain ⟨j, hj, hr⟩ := List.mem_map.mp (hm ▸ List.mem_map_of_mem hv)
        obtain ⟨i, hi, hr⟩ := ih j hj hr hw
        exact ⟨i, .item hj hi, hr⟩
  | int n =>
    obtain ⟨k, rfl, -⟩ := ofJson?_int h
    cases hw
    exact ⟨_, .here, h⟩
  | bool b =>
    obtain rfl := Option.some.inj h
    cases hw
    exact ⟨_, .here, h⟩
  | str s =>
    obtain rfl := Option.some.inj h
    cases hw
    exact ⟨_, .here, h⟩
  | _ => cases h

theorem ordered_of_ofJson? {j : Json} {v : TagValue} (h : ofJson? j = some v) : v.Ordered := by
  intro elements hi
  obtain ⟨i, -, hr⟩ := exists_inside_of_inside h hi
  cases i with
  | obj fields =>
    rcases ofJson?_obj_eq_some_iff.mp hr with ⟨t, -, ht⟩ | ⟨-, read, -, he⟩
    · cases ht
    · rw [TagValue.tag.inj he]
      exact Tag.inOrder_ofElements read
  | arr items =>
    rcases ofJson?_arr_eq_some_iff.mp hr with ⟨t, -, ht⟩ | ⟨-, read, -, he⟩
    · cases ht
    · cases he
  | int n =>
    obtain ⟨k, hk, -⟩ := ofJson?_int hr
    cases hk
  | _ => cases hr

/-- Under every key of an object, what was read is written as a value alike to the one read. -/
theorem rel_alike_lookup {fields : List (String × Json)} {read : List (String × TagValue)}
    (hnd : (fields.map (·.1)).Nodup)
    (hm : (fields.mapM fun f => return (f.1, ← ofJson? f.2)) = some read)
    (hparts : ∀ f ∈ fields, ∀ v, ofJson? f.2 = some v → Alike v.toJson f.2) (key : String) :
    Option.Rel Alike ((toFields (Tag.ofElements read).elements).lookup key)
      (fields.lookup key) := by
  have hread : (read.map (·.1)).Nodup := (mapM_snd_eq_some_iff.mp hm).1 ▸ hnd
  have hl := map_lookup_of_mapM hm key
  rw [lookup_toFields, ← Tag.get?, Tag.get?_ofElements, Tag.lookup_reverse hread]
  cases hf : fields.lookup key with
  | none =>
    rw [hf, Option.map_none, eq_comm, Option.map_eq_none_iff] at hl
    rw [hl]
    exact .none
  | some j =>
    rw [hf, Option.map_some, eq_comm, Option.map_eq_some_iff] at hl
    obtain ⟨v, hv, hr⟩ := hl
    rw [hv]
    exact .some (hparts _ (Tag.mem_of_lookup_eq_some hf) v hr.symm)

/-- The items of an array, read and written again, are alike to what they were. -/
theorem forall₂_alike {items : List Json} {values : List TagValue}
    (hparts : ∀ j ∈ items, ∀ v, ofJson? j = some v → Alike v.toJson j)
    (h : items.map ofJson? = values.map some) : List.Forall₂ Alike (toJsons values) items := by
  induction items generalizing values with
  | nil =>
    obtain rfl : values = [] := by simpa using h.symm
    exact .nil
  | cons j items ih =>
    cases values with
    | nil => simp at h
    | cons v values =>
      obtain ⟨hv, h⟩ := List.cons.inj h
      obtain ⟨hj, hparts⟩ := List.forall_mem_cons.mp hparts
      exact .cons (hj v hv) (ih hparts h)

/-- **A value that was read and written again is the same to a reader of types**, if no object repeats
a key. -/
theorem alike_toJson_of_ofJson? {j : Json} {v : TagValue} (hd : j.DistinctKeys)
    (h : ofJson? j = some v) : Alike v.toJson j := by
  -- A value inside another one may stand in the place of a kind, a name, the arguments or the
  -- element of a type, so the induction carries all four readings and not only the one as a type.
  induction j using Json.nestedInduction generalizing v with
  | obj fields ih =>
    rcases ofJson?_obj_eq_some_iff.mp h with ⟨t, ht, rfl⟩ | ⟨-, read, hm, rfl⟩
    · exact alike_toJson_of_nested? ht
    · obtain ⟨hnd, hparts⟩ := distinctKeys_obj_iff.mp hd
      have hlookup := rel_alike_lookup hnd hm fun f hf v hr => ih f hf (hparts f hf) hr
      refine ⟨rfl, rfl, rfl, ?_⟩
      rw [toJson, nested?_obj (keys_toFields _ ▸ (Tag.inOrder_ofElements read).nodup),
        nested?_obj hnd]
      exact describedBy?_congr hlookup
  | arr items ih =>
    rcases ofJson?_arr_eq_some_iff.mp h with ⟨t, ht, rfl⟩ | ⟨-, read, hm, rfl⟩
    · exact alike_toJson_of_nested? ht
    · have hparts := distinctKeys_arr_iff.mp hd
      have hitems : List.Forall₂ Alike (toJsons read) items :=
        forall₂_alike (fun j hj v hr => ih j hj (hparts j hj) hr) hm
      exact ⟨rfl, rfl, nestedItems?_congr hitems, nested?_arr_congr hitems⟩
  | int n =>
    obtain ⟨k, rfl, rfl⟩ := ofJson?_int h
    exact .refl _
  | bool b =>
    obtain rfl := Option.some.inj h
    exact .refl _
  | str s =>
    obtain rfl := Option.some.inj h
    exact .refl _
  | _ => cases h

theorem ofJson?_of_nested? {j : Json} {t : TypeRef} (h : nested? j = some t) :
    ofJson? j = some (.type t) := by
  cases j with
  | obj fields => exact ofJson?_obj_eq_some_iff.mpr (.inl ⟨t, h, rfl⟩)
  | arr items => exact ofJson?_arr_eq_some_iff.mpr (.inl ⟨t, h, rfl⟩)
  | _ => simp [nested?] at h

/-- What is read from a value in which no object repeats a key does not look like a type unless it is
one. -/
theorem unambiguous_of_ofJson? {j : Json} {v : TagValue} (hd : j.DistinctKeys)
    (h : ofJson? j = some v) : v.Unambiguous := by
  intro w hw hl
  obtain ⟨i, hi, hr⟩ := exists_inside_of_inside h hw
  obtain ⟨t, ht⟩ := exists_nested?_of_typeLike hl (ordered_of_ofJson? hr)
  rw [(alike_toJson_of_ofJson? (hd.of_inside hi) hr).type] at ht
  exact ⟨t, Option.some.inj (hr.symm.trans (ofJson?_of_nested? ht))⟩

end TagValue

namespace Tag

/-- The elements of the tag, and of every tag inside it, are in order. -/
def Ordered (tag : Tag) : Prop :=
  (TagValue.tag tag.elements).Ordered

/-- Nothing inside the tag looks like a type but the types. The tag itself may, since no type stands in
its place. -/
def Unambiguous (tag : Tag) : Prop :=
  ∀ e ∈ tag.elements, e.2.Unambiguous

theorem ofJson?_eq_some_iff {j : Json} {tag : Tag} :
    ofJson? j = some tag ↔ ∃ fields read, j = .obj fields ∧
      (fields.mapM fun f => return (f.1, ← TagValue.ofJson? f.2)) = some read ∧
        ofElements read = tag := by
  cases j with
  | obj fields =>
    rw [ofJson?, TagValue.ofFields?_eq_mapM, Option.map_eq_map, Option.map_eq_some_iff]
    simp
  | _ => simp [ofJson?]

/-- **A tag survives being written and read exactly if nothing in it looks like a type without being
one.** -/
theorem ofJson?_toJson_iff {tag : Tag} (ho : tag.Ordered) :
    ofJson? tag.toJson = some tag ↔ tag.Unambiguous := by
  obtain ⟨hin, hparts⟩ := TagValue.ordered_tag_iff.mp ho
  have hvalues := forall₂_congr fun e he => TagValue.ofJson?_toJson_iff (hparts e he)
  rw [Unambiguous, ← hvalues, ← TagValue.exists_read_toFields_iff hin, ofJson?_eq_some_iff]
  constructor
  · rintro ⟨_, read, hj, hm, rfl⟩
    obtain rfl := Json.obj.inj hj
    exact ⟨read, hm, rfl⟩
  · rintro ⟨read, hm, he⟩
    exact ⟨_, read, rfl, hm, congrArg Tag.mk he⟩

theorem ordered_of_ofJson? {j : Json} {tag : Tag} (h : ofJson? j = some tag) : tag.Ordered := by
  obtain ⟨fields, read, rfl, hm, rfl⟩ := ofJson?_eq_some_iff.mp h
  refine TagValue.ordered_tag_iff.mpr ⟨inOrder_ofElements read, fun e he => ?_⟩
  obtain ⟨f, -, -, hr⟩ := exists_pair_of_mem hm (mem_of_mem_ofElements he)
  exact TagValue.ordered_of_ofJson? hr

theorem unambiguous_of_ofJson? {j : Json} {tag : Tag} (hd : j.DistinctKeys)
    (h : ofJson? j = some tag) : tag.Unambiguous := by
  obtain ⟨fields, read, rfl, hm, rfl⟩ := ofJson?_eq_some_iff.mp h
  intro e he
  obtain ⟨f, hf, -, hr⟩ := exists_pair_of_mem hm (mem_of_mem_ofElements he)
  exact TagValue.unambiguous_of_ofJson? ((Json.distinctKeys_obj_iff.mp hd).2 f hf) hr

theorem readable_toJson (tag : Tag) : tag.toJson.readable = true :=
  TagValue.readable_toJson (.tag tag.elements)

/-- Setting an element to an ordered value keeps a tag ordered. -/
theorem Ordered.set {tag : Tag} (ho : tag.Ordered) (name : String) {value : TagValue}
    (hv : value.Ordered) : (tag.set name value).Ordered := by
  obtain ⟨hin, hparts⟩ := TagValue.ordered_tag_iff.mp ho
  refine TagValue.ordered_tag_iff.mpr ⟨inOrder_setElement hin name value, fun e he => ?_⟩
  rcases mem_of_mem_setElement he with rfl | he
  · exact hv
  · exact hparts e he

theorem ordered_empty : (∅ : Tag).Ordered :=
  TagValue.ordered_tag_iff.mpr ⟨List.Pairwise.nil, fun _ he => nomatch he⟩

end Tag

namespace TagMap

theorem ofJson?_eq_some_iff {j : Json} {tags : TagMap} :
    ofJson? j = some tags ↔ j.nameMap? (·.list? Tag.ofJson?) = some tags.occurrences := by
  rw [ofJson?, Option.map_eq_map, Option.map_eq_some_iff]
  constructor
  · rintro ⟨m, hm, rfl⟩
    exact hm
  · intro h
    exact ⟨_, h, rfl⟩

theorem mem_get_iff {tags : TagMap} {name : String} {tag : Tag} :
    tag ∈ tags.get name ↔
      ∃ tagsOfName, tags.occurrences[name]? = some tagsOfName ∧ tag ∈ tagsOfName := by
  rw [get, Std.ExtTreeMap.getD_eq_getD_getElem?]
  cases tags.occurrences[name]? <;> simp

/-- The tags of a declaration read back exactly if every one of them does. -/
theorem ofJson?_toJson_iff {tags : TagMap} :
    ofJson? tags.toJson = some tags ↔
      ∀ name, ∀ tag ∈ tags.get name, Tag.ofJson? tag.toJson = some tag := by
  simp only [ofJson?_eq_some_iff, toJson, Json.nameMap?_ofNameMap_eq_some_iff,
    Json.list?_map_eq_some_iff, mem_get_iff]
  constructor
  · rintro h name tag ⟨tagsOfName, hg, hm⟩
    exact h name tagsOfName hg tag hm
  · intro h name tagsOfName hg tag hm
    exact h name tag ⟨tagsOfName, hg, hm⟩

theorem readable_toJson (tags : TagMap) : tags.toJson.readable = true :=
  Json.readable_ofNameMap (Json.readable_map Tag.readable_toJson) tags.occurrences

/-- Every tag of the declaration was read from a part. -/
theorem exists_inside_of_mem_get {j : Json} {tags : TagMap} {name : String} {tag : Tag}
    (h : ofJson? j = some tags) (hm : tag ∈ tags.get name) :
    ∃ i, Json.Inside i j ∧ Tag.ofJson? i = some tag := by
  obtain ⟨tagsOfName, hg, hm⟩ := mem_get_iff.mp hm
  obtain ⟨k, hk, hr⟩ := Json.exists_inside_of_nameMap? (ofJson?_eq_some_iff.mp h) hg
  obtain ⟨i, hi, ht⟩ := Json.exists_inside_of_list? hr hm
  exact ⟨i, hi.trans hk, ht⟩

end TagMap

end ApiDescription
