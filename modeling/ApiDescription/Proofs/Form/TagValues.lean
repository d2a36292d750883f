import ApiDescription.Proofs.Form.Elements
import ApiDescription.Proofs.Form.Types
import ApiDescription.Tag.Form

/-!
# Values of tags that look like types

A value of a tag is written without a mark of its shape, so a tag or a list may be written in a form
that a type has. `TypeLike` lists the values of which this is so: a tag with the attributes of a type,
as `kind` and `name`, and a list of a kind and its parts, as a list of the one string `void`.

`Ordered` says of a value what holds of every value that is built by setting elements: the elements of
each tag in it are in order.

Results:
* `nestedInduction`: induction over values, with one case for each shape.
* `exists_nested?_toJson_iff`: the written form of an ordered value reads as a type exactly if the value
  is type-like.
-/

namespace ApiDescription.TagValue

open Json TypeRef

section Induction

variable {P : TagValue → Prop}

mutual

/-- Induction over a value: what holds of a tag or a list as soon as it holds of the values in it holds
of every value. -/
@[elab_as_elim] theorem nestedInduction (bool : ∀ b, P (.bool b)) (int : ∀ n, P (.int n))
    (str : ∀ s, P (.str s)) (type : ∀ t, P (.type t))
    (tag : ∀ elements, (∀ e ∈ elements, P e.2) → P (.tag elements))
    (list : ∀ items, (∀ v ∈ items, P v) → P (.list items)) : ∀ v, P v
  | .bool b => bool b
  | .int n => int n
  | .str s => str s
  | .type t => type t
  | .tag elements => tag elements (elements_induction bool int str type tag list elements)
  | .list items => list items (items_induction bool int str type tag list items)

theorem elements_induction (bool : ∀ b, P (.bool b)) (int : ∀ n, P (.int n))
    (str : ∀ s, P (.str s)) (type : ∀ t, P (.type t))
    (tag : ∀ elements, (∀ e ∈ elements, P e.2) → P (.tag elements))
    (list : ∀ items, (∀ v ∈ items, P v) → P (.list items)) :
    ∀ elements : List (String × TagValue), ∀ e ∈ elements, P e.2
  | [] => by simp
  | (_, v) :: rest => List.forall_mem_cons.mpr
      ⟨nestedInduction bool int str type tag list v,
        elements_induction bool int str type tag list rest⟩

theorem items_induction (bool : ∀ b, P (.bool b)) (int : ∀ n, P (.int n))
    (str : ∀ s, P (.str s)) (type : ∀ t, P (.type t))
    (tag : ∀ elements, (∀ e ∈ elements, P e.2) → P (.tag elements))
    (list : ∀ items, (∀ v ∈ items, P v) → P (.list items)) :
    ∀ items : List TagValue, ∀ v ∈ items, P v
  | [] => by simp
  | v :: rest => List.forall_mem_cons.mpr
      ⟨nestedInduction bool int str type tag list v,
        items_induction bool int str type tag list rest⟩

end

end Induction

/-! ## Parts -/

theorem toJsons_eq_map (items : List TagValue) : toJsons items = items.map toJson := by
  induction items with
  | nil => rfl
  | cons v rest ih => rw [toJsons, ih, List.map_cons]

theorem toFields_eq_map (elements : List (String × TagValue)) :
    toFields elements = elements.map fun e => (e.1, e.2.toJson) := by
  induction elements with
  | nil => rfl
  | cons e rest ih => rw [toFields, ih, List.map_cons]

theorem ofItems?_eq_mapM (items : List Json) : ofItems? items = items.mapM ofJson? := by
  induction items with
  | nil => rfl
  | cons j rest ih => rw [ofItems?, ih, List.mapM_cons]

theorem ofFields?_eq_mapM (fields : List (String × Json)) :
    ofFields? fields = fields.mapM fun f => return (f.1, ← ofJson? f.2) := by
  induction fields with
  | nil => rfl
  | cons f rest ih =>
    rw [ofFields?, ih, List.mapM_cons]
    cases ofJson? f.2 <;> rfl

theorem keys_toFields (elements : List (String × TagValue)) :
    (toFields elements).map (·.1) = elements.map (·.1) := by
  rw [toFields_eq_map, List.map_map]
  rfl

theorem lookup_toFields (elements : List (String × TagValue)) (key : String) :
    (toFields elements).lookup key = (elements.lookup key).map toJson := by
  induction elements with
  | nil => rfl
  | cons e rest ih =>
    rw [toFields, Tag.lookup_cons_eq_ite, Tag.lookup_cons_eq_ite, ih]
    split <;> rfl

theorem readable_toJson (v : TagValue) : v.toJson.readable = true := by
  induction v using nestedInduction with
  | type t => exact TypeRef.readable_toJson t
  | tag elements ih =>
    rw [toJson, toFields_eq_map, readable_obj_iff, List.forall_mem_map]
    exact ih
  | list items ih =>
    rw [toJson, toJsons_eq_map, readable_arr_iff, List.forall_mem_map]
    exact ih
  | _ => rfl

/-! ## Values inside values -/

/-- One value stands somewhere inside another, or is that value. -/
inductive Inside (w : TagValue) : TagValue → Prop where
  | here : Inside w w
  | element {e : String × TagValue} {elements : List (String × TagValue)} (hm : e ∈ elements)
      (h : Inside w e.2) : Inside w (.tag elements)
  | item {v : TagValue} {items : List TagValue} (hm : v ∈ items) (h : Inside w v) :
      Inside w (.list items)

/-- Every tag inside a value has its elements in order. -/
def Ordered (v : TagValue) : Prop :=
  ∀ elements, Inside (.tag elements) v → Tag.InOrder elements

theorem ordered_tag_iff {elements : List (String × TagValue)} :
    Ordered (.tag elements) ↔ Tag.InOrder elements ∧ ∀ e ∈ elements, e.2.Ordered := by
  constructor
  · intro h
    exact ⟨h elements .here, fun e hm inner hi => h inner (.element hm hi)⟩
  · rintro ⟨hin, h⟩ inner hi
    cases hi with
    | here => exact hin
    | element hm hi => exact h _ hm inner hi

theorem ordered_list_iff {items : List TagValue} :
    Ordered (.list items) ↔ ∀ v ∈ items, v.Ordered := by
  constructor
  · intro h v hm inner hi
    exact h inner (.item hm hi)
  · intro h inner hi
    cases hi with
    | item hm hi => exact h _ hm inner hi

/-! ## Values that are written as types are -/

/-- The kind of type that a value stands for at the place of one, as a word or as a position. -/
def kind? : TagValue → Option TypeRef.Kind
  | .str word => Kind.all.find? (·.word = word)
  | .int position => position.toInt.toNat?.bind (Kind.all[·]?)
  | _ => none

theorem kindOfJson?_toJson (v : TagValue) : Kind.ofJson? v.toJson = v.kind? := by
  cases v with
  | int position =>
    rw [toJson, kind?]
    cases position.toInt <;> rfl
  | type t =>
    obtain ⟨fields, ht⟩ := exists_toJson_eq_obj t
    rw [toJson, ht]
    rfl
  | _ => rfl

theorem str?_toJson_eq_some_iff {v : TagValue} {s : String} :
    v.toJson.str? = some s ↔ v = .str s := by
  cases v with
  | type t =>
    obtain ⟨fields, ht⟩ := exists_toJson_eq_obj t
    simp [toJson, ht, str?]
  | _ => simp [toJson, str?]

/-- A value whose written form is that of a type. Besides the types themselves these are the tags that
have the attributes of a kind of type, and the lists that give a kind and its parts. -/
inductive TypeLike : TagValue → Prop where
  | type (t : TypeRef) : TypeLike (.type t)
  | bareTag {elements : List (String × TagValue)} {k : TypeRef.Kind}
      (hk : (elements.lookup "kind").bind kind? = some k) (hb : k = .void ∨ k = .unknown) :
      TypeLike (.tag elements)
  | namedTag {elements : List (String × TagValue)} {k : TypeRef.Kind} {name : String}
      (hk : (elements.lookup "kind").bind kind? = some k) (hb : k = .primitive ∨ k = .var)
      (hn : elements.lookup "name" = some (.str name)) : TypeLike (.tag elements)
  | declaredTag {elements : List (String × TagValue)} {name : String}
      (hk : (elements.lookup "kind").bind kind? = some .declared)
      (hn : elements.lookup "name" = some (.str name)) (ha : elements.lookup "args" = none) :
      TypeLike (.tag elements)
  | appliedTag {elements : List (String × TagValue)} {name : String} {args : List TagValue}
      (hk : (elements.lookup "kind").bind kind? = some .declared)
      (hn : elements.lookup "name" = some (.str name))
      (ha : elements.lookup "args" = some (.list args)) (h : ∀ a ∈ args, TypeLike a) :
      TypeLike (.tag elements)
  | arrayTag {elements : List (String × TagValue)} {element : TagValue}
      (hk : (elements.lookup "kind").bind kind? = some .array)
      (he : elements.lookup "element" = some element) (h : TypeLike element) :
      TypeLike (.tag elements)
  | bareList {kind : TagValue} {k : TypeRef.Kind} (hk : kind.kind? = some k)
      (hb : k = .void ∨ k = .unknown) : TypeLike (.list [kind])
  | namedList {kind : TagValue} {k : TypeRef.Kind} {name : String} (hk : kind.kind? = some k)
      (hb : k = .primitive ∨ k = .declared ∨ k = .var) : TypeLike (.list [kind, .str name])
  | arrayList {kind element : TagValue} (hk : kind.kind? = some .array) (h : TypeLike element) :
      TypeLike (.list [kind, element])
  | appliedList {kind : TagValue} {name : String} {args : List TagValue}
      (hk : kind.kind? = some .declared) (h : ∀ a ∈ args, TypeLike a) :
      TypeLike (.list [kind, .str name, .list args])

/-- A list of values whose written forms are those of types. -/
def ArgsLike (v : TagValue) : Prop :=
  ∃ args, v = .list args ∧ ∀ a ∈ args, a.TypeLike

/-- The type that the written form of a tag reads as, from the values of its elements. -/
theorem nested?_tag {elements : List (String × TagValue)} (h : Tag.InOrder elements) :
    nested? (toJson (.tag elements)) =
      ofParts? ((elements.lookup "kind").bind kind?)
        ((elements.lookup "name").bind fun v => v.toJson.str?)
        ((elements.lookup "args").elim (some []) fun v => nestedArgs? v.toJson)
        ((elements.lookup "element").bind fun v => nested? v.toJson) := by
  have hkind : Kind.ofJson? ∘ toJson = kind? := funext kindOfJson?_toJson
  rw [toJson, nested?_obj (by rw [keys_toFields]; exact h.nodup), describedBy?]
  simp only [lookup_toFields, Option.bind_map, Option.elim_map, hkind, Function.comp_def]

/-- The written form of a tag reads as a type only if the tag has the attributes of one. -/
theorem typeLike_tag_of_nested? {elements : List (String × TagValue)} {t : TypeRef}
    (hin : Tag.InOrder elements)
    (ih : ∀ e ∈ elements, (∀ t, nested? e.2.toJson = some t → e.2.TypeLike) ∧
      ∀ args, nestedArgs? e.2.toJson = some args → e.2.ArgsLike)
    (h : nested? (toJson (.tag elements)) = some t) : (TagValue.tag elements).TypeLike := by
  have hname : ∀ {name}, (elements.lookup "name").bind (·.toJson.str?) = some name →
      elements.lookup "name" = some (.str name) := by
    intro name hn
    obtain ⟨v, hv, hs⟩ := Option.bind_eq_some_iff.mp hn
    rw [hv, str?_toJson_eq_some_iff.mp hs]
  rw [nested?_tag hin] at h
  obtain ⟨k, hk, h⟩ := Option.bind_eq_some_iff.mp h
  cases k with
  | void => exact .bareTag hk (.inl rfl)
  | unknown => exact .bareTag hk (.inr rfl)
  | primitive =>
    obtain ⟨name, hn, -⟩ := Option.map_eq_some_iff.mp h
    exact .namedTag hk (.inl rfl) (hname hn)
  | var =>
    obtain ⟨name, hn, -⟩ := Option.map_eq_some_iff.mp h
    exact .namedTag hk (.inr rfl) (hname hn)
  | declared =>
    obtain ⟨name, hn, h⟩ := Option.bind_eq_some_iff.mp h
    obtain ⟨args, ha, -⟩ := Option.bind_eq_some_iff.mp h
    cases hv : elements.lookup "args" with
    | none => exact .declaredTag hk (hname hn) hv
    | some v =>
      rw [hv] at ha
      obtain ⟨args, rfl, hargs⟩ := (ih _ (Tag.mem_of_lookup_eq_some hv)).2 _ ha
      exact .appliedTag hk (hname hn) hv hargs
  | array =>
    obtain ⟨element, he, -⟩ := Option.map_eq_some_iff.mp h
    obtain ⟨v, hv, he⟩ := Option.bind_eq_some_iff.mp he
    exact .arrayTag hk hv ((ih _ (Tag.mem_of_lookup_eq_some hv)).1 _ he)

/-- The written form of a list reads as a type only if the list gives a kind and its parts. -/
theorem typeLike_list_of_nested? {items : List TagValue} {t : TypeRef}
    (ih : ∀ v ∈ items, (∀ t, nested? v.toJson = some t → v.TypeLike) ∧
      ∀ args, nestedArgs? v.toJson = some args → v.ArgsLike)
    (h : nested? (toJson (.list items)) = some t) : (TagValue.list items).TypeLike := by
  rw [toJson, toJsons_eq_map] at h
  rcases items with _ | ⟨kind, _ | ⟨part, _ | ⟨args, _ | ⟨_, _⟩⟩⟩⟩
  · simp [nested?] at h
  · simp only [List.map_cons, List.map_nil, nested?, kindOfJson?_toJson] at h
    obtain ⟨k, hk, h⟩ := Option.bind_eq_some_iff.mp h
    cases k with
    | void => exact .bareList hk (.inl rfl)
    | unknown => exact .bareList hk (.inr rfl)
    | _ => cases h
  · simp only [List.map_cons, List.map_nil, nested?, kindOfJson?_toJson] at h
    obtain ⟨k, hk, h⟩ := Option.bind_eq_some_iff.mp h
    cases k with
    | primitive =>
      obtain ⟨name, hn, -⟩ := Option.map_eq_some_iff.mp h
      exact str?_toJson_eq_some_iff.mp hn ▸ .namedList hk (.inl rfl)
    | declared =>
      obtain ⟨name, hn, -⟩ := Option.map_eq_some_iff.mp h
      exact str?_toJson_eq_some_iff.mp hn ▸ .namedList hk (.inr (.inl rfl))
    | var =>
      obtain ⟨name, hn, -⟩ := Option.map_eq_some_iff.mp h
      exact str?_toJson_eq_some_iff.mp hn ▸ .namedList hk (.inr (.inr rfl))
    | array =>
      obtain ⟨element, he, -⟩ := Option.map_eq_some_iff.mp h
      exact .arrayList hk ((ih part (by simp)).1 _ he)
    | _ => cases h
  · simp only [List.map_cons, List.map_nil, nested?, kindOfJson?_toJson] at h
    obtain ⟨k, hk, h⟩ := Option.bind_eq_some_iff.mp h
    cases k with
    | declared =>
      obtain ⟨name, hn, h⟩ := Option.bind_eq_some_iff.mp h
      obtain ⟨_, ha, -⟩ := Option.bind_eq_some_iff.mp h
      obtain ⟨args, rfl, hargs⟩ := (ih args (by simp)).2 _ ha
      exact str?_toJson_eq_some_iff.mp hn ▸ .appliedList hk hargs
    | _ => cases h
  · simp [nested?] at h

/-- What reads as a type when written looks like one. -/
theorem typeLike_of_nested? {v : TagValue} (ho : v.Ordered) :
    (∀ t, nested? v.toJson = some t → v.TypeLike) ∧
      ∀ args, nestedArgs? v.toJson = some args → v.ArgsLike := by
  -- the second part is for the arguments of a type, which are two levels below it
  induction v using nestedInduction with
  | type t =>
    obtain ⟨fields, ht⟩ := exists_toJson_eq_obj t
    exact ⟨fun _ _ => .type t, by simp [toJson, ht, nestedArgs?]⟩
  | tag elements ih =>
    obtain ⟨hin, ho⟩ := ordered_tag_iff.mp ho
    have ih := fun e he => ih e he (ho e he)
    exact ⟨fun t => typeLike_tag_of_nested? hin ih, by simp [toJson, nestedArgs?]⟩
  | list items ih =>
    have ih := fun v hv => ih v hv (ordered_list_iff.mp ho v hv)
    refine ⟨fun t => typeLike_list_of_nested? ih, fun args ha => ⟨items, rfl, fun v hv => ?_⟩⟩
    rw [toJson, toJsons_eq_map, nestedArgs?_arr_eq_some_iff, List.map_map] at ha
    obtain ⟨t, -, ht⟩ := List.mem_map.mp (ha ▸ List.mem_map_of_mem hv)
    exact (ih v hv).1 t ht.symm
  | _ => simp [toJson, nested?, nestedArgs?]

theorem exists_items_of_forall {items : List TagValue}
    (h : ∀ v ∈ items, ∃ t, nested? v.toJson = some t) :
    ∃ types, nestedArgs? (toJson (.list items)) = some types := by
  induction items with
  | nil => exact ⟨[], rfl⟩
  | cons v rest ih =>
    obtain ⟨⟨t, ht⟩, hrest⟩ := List.forall_mem_cons.mp h
    obtain ⟨types, htypes⟩ := ih hrest
    refine ⟨t :: types, nestedArgs?_arr_eq_some_iff.mpr ?_⟩
    rw [toJsons, List.map_cons, List.map_cons, ht, nestedArgs?_arr_eq_some_iff.mp htypes]

/-- What looks like a type reads as one when written. -/
theorem exists_nested?_of_typeLike {v : TagValue} (h : v.TypeLike) (ho : v.Ordered) :
    ∃ t, nested? v.toJson = some t := by
  induction h with
  | type t => exact ⟨t, nested?_toJson t⟩
  | bareTag hk hb =>
    rw [nested?_tag (ordered_tag_iff.mp ho).1, hk]
    rcases hb with rfl | rfl <;> exact ⟨_, rfl⟩
  | namedTag hk hb hn =>
    rw [nested?_tag (ordered_tag_iff.mp ho).1, hk, hn]
    rcases hb with rfl | rfl <;> exact ⟨_, rfl⟩
  | declaredTag hk hn ha =>
    rw [nested?_tag (ordered_tag_iff.mp ho).1, hk, hn, ha]
    exact ⟨_, rfl⟩
  | @appliedTag elements name args hk hn ha _ ih =>
    have hargs := ordered_list_iff.mp ((ordered_tag_iff.mp ho).2 _ (Tag.mem_of_lookup_eq_some ha))
    obtain ⟨types, htypes⟩ := exists_items_of_forall fun a hm => ih a hm (hargs a hm)
    rw [nested?_tag (ordered_tag_iff.mp ho).1, hk, hn, ha, Option.elim_some, htypes]
    exact ⟨_, rfl⟩
  | arrayTag hk he _ ih =>
    obtain ⟨t, ht⟩ := ih ((ordered_tag_iff.mp ho).2 _ (Tag.mem_of_lookup_eq_some he))
    rw [nested?_tag (ordered_tag_iff.mp ho).1, hk, he, Option.bind_some, ht]
    exact ⟨_, rfl⟩
  | bareList hk hb =>
    rw [toJson, toJsons_eq_map, List.map_singleton, nested?, kindOfJson?_toJson, hk]
    rcases hb with rfl | rfl <;> exact ⟨_, rfl⟩
  | namedList hk hb =>
    rw [toJson, toJsons_eq_map, List.map_cons, List.map_singleton, nested?, kindOfJson?_toJson, hk]
    rcases hb with rfl | rfl | rfl <;> exact ⟨_, rfl⟩
  | arrayList hk _ ih =>
    obtain ⟨t, ht⟩ := ih (ordered_list_iff.mp ho _ (by simp))
    rw [toJson, toJsons_eq_map, List.map_cons, List.map_singleton, nested?, kindOfJson?_toJson, hk,
      ht]
    exact ⟨_, rfl⟩
  | @appliedList kind name args hk _ ih =>
    have hargs : Ordered (.list args) := ordered_list_iff.mp ho _ (by simp)
    obtain ⟨types, htypes⟩ :=
      exists_items_of_forall fun a hm => ih a hm (ordered_list_iff.mp hargs a hm)
    rw [toJson, toJsons_eq_map, List.map_cons, List.map_cons, List.map_singleton, nested?,
      kindOfJson?_toJson, hk, htypes]
    exact ⟨_, rfl⟩

/-- **Exactly what looks like a type reads as one when written.** -/
theorem exists_nested?_toJson_iff {v : TagValue} (ho : v.Ordered) :
    (∃ t, nested? v.toJson = some t) ↔ v.TypeLike :=
  ⟨fun ⟨_, ht⟩ => (typeLike_of_nested? ho).1 _ ht, fun h => exists_nested?_of_typeLike h ho⟩

end ApiDescription.TagValue
