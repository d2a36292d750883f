import ApiDescription.Proofs.Form.Attributes
import ApiDescription.Tag.Basic
import ApiDescription.TypeRef.Form
import Mathlib.Data.List.Forall2

/-!
# Reading types back

The written form of a type reads as that type. More is needed where types stand among other values, as
they do in tags: what a reader of types makes of a value depends only on what it makes of the parts of
the value, and on an object's fields only through their keys, as long as no key is repeated.

Results:
* `nested?_obj`: the type that an object with distinct keys describes, by its keys.
* `nested?_toJson`, `ofJson?_toJson`: a written type reads as itself.
* `describedBy?_congr`, `nested?_arr_congr`, `nestedItems?_congr`: values with parts that are `Alike`
  are the same to a reader of types.
* `alike_toJson_of_nested?`: a type that was read is written as a value alike to the one read.
-/

namespace ApiDescription.TypeRef

open Json

theorem toJsons_eq_map (types : List TypeRef) : toJsons types = types.map toJson := by
  induction types with
  | nil => rfl
  | cons t rest ih => rw [toJsons, ih, List.map_cons]

theorem nestedItems?_eq_mapM (items : List Json) : nestedItems? items = items.mapM nested? := by
  induction items with
  | nil => rfl
  | cons j rest ih =>
    rw [nestedItems?, ih, List.mapM_cons]

theorem nestedArgs?_arr_eq_some_iff {items : List Json} {args : List TypeRef} :
    nestedArgs? (.arr items) = some args ↔ items.map nested? = args.map some := by
  rw [nestedArgs?, nestedItems?_eq_mapM, mapM_eq_some_iff]

/-! ## Objects with distinct keys -/

/-- The values that stand under a key, in order. -/
def valuesOf (key : String) (fields : List (String × Json)) : List Json :=
  (fields.filter (·.1 = key)).map (·.2)

theorem valuesOf_cons (key : String) (f : String × Json) (fields : List (String × Json)) :
    valuesOf key (f :: fields) = if f.1 = key then f.2 :: valuesOf key fields
      else valuesOf key fields := by
  unfold valuesOf
  by_cases h : f.1 = key <;> simp [h]

theorem valuesOf_eq_lookup {fields : List (String × Json)} (h : (fields.map (·.1)).Nodup)
    (key : String) : valuesOf key fields = (fields.lookup key).toList := by
  induction fields with
  | nil => rfl
  | cons f fields ih =>
    obtain ⟨name, value⟩ := f
    obtain ⟨hn, hnd⟩ := List.nodup_cons.mp h
    rw [valuesOf_cons, ih hnd, Tag.lookup_cons_eq_ite]
    by_cases hk : name = key
    · subst hk
      have hl : fields.lookup name = none := List.lookup_eq_none_iff.mpr fun f hf => by
        simpa using fun he : name = f.1 => hn (List.mem_map.mpr ⟨f, hf, he.symm⟩)
      simp [hl]
    · simp [hk, Ne.symm hk]

theorem readFields_eq (fields : List (String × Json)) :
    readFields fields =
      { kind := (valuesOf "kind" fields).map Kind.ofJson?
        name := (valuesOf "name" fields).map str?
        args := (valuesOf "args" fields).map nestedArgs?
        element := (valuesOf "element" fields).map nested? } := by
  induction fields with
  | nil => rfl
  | cons f fields ih =>
    obtain ⟨key, value⟩ := f
    simp only [readFields, ih, valuesOf_cons]
    split <;> simp_all

/-- The type of a kind with its parts; nothing without a part that the kind needs. -/
def ofParts? (kind : Option Kind) (name : Option String) (args : Option (List TypeRef))
    (element : Option TypeRef) : Option TypeRef := do
  match ← kind with
  | .void => some .void
  | .primitive => .primitive <$> name
  | .declared => return .declared (← name) (← args)
  | .array => .array <$> element
  | .var => .var <$> name
  | .unknown => some .unknown

/-- The type that an object describes, from what stands under each of its keys. -/
def describedBy? (value? : String → Option Json) : Option TypeRef :=
  ofParts? ((value? "kind").bind Kind.ofJson?) ((value? "name").bind str?)
    ((value? "args").elim (some []) nestedArgs?) ((value? "element").bind nested?)

theorem once?_map_toList {α β : Type} (f : α → Option β) (o : Option α) :
    once? (o.toList.map f) = o.bind f := by
  cases o <;> rfl

theorem nested?_obj {fields : List (String × Json)} (h : (fields.map (·.1)).Nodup) :
    nested? (.obj fields) = describedBy? (fields.lookup ·) := by
  simp only [nested?, readFields_eq, Fields.type?, valuesOf_eq_lookup h, once?_map_toList,
    describedBy?]
  cases fields.lookup "args" <;> rfl

/-! ## Reading back -/

/-- The written form of a type reads as that type. -/
theorem nested?_toJson (t : TypeRef) : nested? t.toJson = some t := by
  induction t using nestedInduction with
  | void => rfl
  | primitive name => rfl
  | declared name args ih =>
    have h : nestedArgs? (.arr (toJsons args)) = some args := by
      rw [nestedArgs?_arr_eq_some_iff, toJsons_eq_map, List.map_map]
      exact List.map_congr_left ih
    rw [toJson, nested?_obj (by simp)]
    simp [describedBy?, Tag.lookup_cons_eq_ite, Kind.ofJson?, Kind.all, Kind.word, str?, h,
      ofParts?]
  | array element ih =>
    rw [toJson, nested?_obj (by simp)]
    simp [describedBy?, Tag.lookup_cons_eq_ite, Kind.ofJson?, Kind.all, Kind.word, ih, ofParts?]
  | var name => rfl
  | unknown => rfl

/-- The written form of a type is an object. -/
theorem exists_toJson_eq_obj (t : TypeRef) : ∃ fields, t.toJson = .obj fields := by
  cases t <;> exact ⟨_, rfl⟩

theorem readable_toJson (t : TypeRef) : t.toJson.readable = true := by
  induction t using nestedInduction with
  | declared name args ih =>
    simp only [toJson, readable_obj_iff, List.forall_mem_cons, toJsons_eq_map, readable_arr_iff,
      List.forall_mem_map]
    exact ⟨rfl, rfl, ih, by simp⟩
  | array element ih =>
    simp only [toJson, readable_obj_iff, List.forall_mem_cons]
    exact ⟨rfl, ih, by simp⟩
  | _ => rfl

theorem kindIsWord_toJson (t : TypeRef) : kindIsWord t.toJson = true := by
  cases t <;> rfl

theorem ofJson?_toJson (t : TypeRef) : ofJson? t.toJson = some t := by
  rw [ofJson?, readable_toJson, kindIsWord_toJson, nested?_toJson]
  rfl

/-! ## What a reader of types makes of a value -/

/-- Two values are the same to a reader of types, as kind, name, arguments or element. -/
structure Alike (a b : Json) : Prop where
  kind : Kind.ofJson? a = Kind.ofJson? b
  str : a.str? = b.str?
  args : nestedArgs? a = nestedArgs? b
  type : nested? a = nested? b

theorem Alike.refl (a : Json) : Alike a a :=
  ⟨rfl, rfl, rfl, rfl⟩

theorem bind_congr_of_alike {α : Type} {f : Json → Option α} {o p : Option Json}
    (h : Option.Rel Alike o p) (hf : ∀ a b, Alike a b → f a = f b) : o.bind f = p.bind f := by
  cases h with
  | none => rfl
  | some hab => exact hf _ _ hab

theorem args_congr_of_alike {o p : Option Json} (h : Option.Rel Alike o p) :
    o.elim (some []) nestedArgs? = p.elim (some []) nestedArgs? := by
  cases h with
  | none => rfl
  | some hab => exact hab.args

theorem describedBy?_congr {u v : String → Option Json}
    (h : ∀ key, Option.Rel Alike (u key) (v key)) : describedBy? u = describedBy? v := by
  rw [describedBy?, describedBy?, bind_congr_of_alike (h "kind") fun _ _ => Alike.kind,
    bind_congr_of_alike (h "name") fun _ _ => Alike.str, args_congr_of_alike (h "args"),
    bind_congr_of_alike (h "element") fun _ _ => Alike.type]

theorem nestedItems?_congr {as bs : List Json} (h : List.Forall₂ Alike as bs) :
    nestedItems? as = nestedItems? bs := by
  induction h with
  | nil => rfl
  | cons hab _ ih => rw [nestedItems?, nestedItems?, hab.type, ih]

theorem nested?_arr_congr {as bs : List Json} (h : List.Forall₂ Alike as bs) :
    nested? (.arr as) = nested? (.arr bs) := by
  rcases h with _ | ⟨h₁, _ | ⟨h₂, _ | ⟨h₃, _ | ⟨h₄, h⟩⟩⟩⟩
  · rfl
  · simp only [nested?, h₁.kind]
  · simp only [nested?, h₁.kind, h₂.str, h₂.type]
  · simp only [nested?, h₁.kind, h₂.str, h₃.args]
  · rfl

/-- An array that reads as a type begins with a kind, so it is no list of types. -/
theorem nestedArgs?_eq_none_of_nested? {items : List Json} {t : TypeRef}
    (h : nested? (.arr items) = some t) : nestedArgs? (.arr items) = none := by
  cases items with
  | nil => simp [nested?] at h
  | cons kind rest =>
    obtain ⟨k, hk⟩ : ∃ k, Kind.ofJson? kind = some k := by
      rcases rest with _ | ⟨_, _ | ⟨_, _ | ⟨_, _⟩⟩⟩ <;>
        simp only [nested?, Option.bind_eq_bind, Option.bind_eq_some_iff, reduceCtorEq] at h <;>
        exact ⟨_, h.choose_spec.1⟩
    have hn : nested? kind = none := by cases kind <;> first | rfl | simp [Kind.ofJson?] at hk
    simp [nestedArgs?, nestedItems?, hn]

/-- A type that was read and written again is the same to a reader of types. -/
theorem alike_toJson_of_nested? {j : Json} {t : TypeRef} (h : nested? j = some t) :
    Alike t.toJson j := by
  obtain ⟨fields, ht⟩ := exists_toJson_eq_obj t
  have htype : nested? t.toJson = nested? j := (nested?_toJson t).trans h.symm
  rw [ht] at htype ⊢
  cases j with
  | obj _ => exact ⟨rfl, rfl, rfl, htype⟩
  | arr items => exact ⟨rfl, rfl, (nestedArgs?_eq_none_of_nested? h).symm, htype⟩
  | _ => simp [nested?] at h

end ApiDescription.TypeRef
