import ApiDescription.Document.Form
import ApiDescription.Proofs.Form.Declarations

/-!
# Reading documents back

Everything in a document but its tags reads back as it was written. So a document survives being written
and read exactly if its tags do, and a document that was read always does.

Results:
* `ofJson?_toJson_iff`: a document reads back iff each tag in it does.
* `survives_iff_unambiguous`: a document survives iff nothing in its tags looks like a type without being
  one; `kindWord_lost` is one that does not.
* `survives_of_read`: what was read from a value without repeated keys survives.
-/

namespace ApiDescription

open Json

/-! ## Handlers -/

namespace TypeContext

theorem ofJson?_toJson (context : TypeContext) : ofJson? context.toJson = some context := by
  rw [ofJson?, toJson, nameMap?_ofNameMap_eq_some_iff.mpr fun _ t _ => TypeRef.ofJson?_toJson t]
  rfl

end TypeContext

theorem Handler.ofJson?_toJson (handler : Handler) : ofJson? handler.toJson = some handler := by
  simp [ofJson?, toJson, record?, required?, optional?, list?_nats, TypeContext.ofJson?_toJson,
    nat?, nat]

/-! ## Documents -/

namespace Document

variable {d : Document}

/-- Every tag of every declaration has a property. -/
def EachTag (P : Tag → Prop) (d : Document) : Prop :=
  ∀ declaration ∈ d.declarations, ∀ name, ∀ tag ∈ declaration.tags.get name, P tag

/-- Every tag keeps its elements in order, as every tag built by setting elements does. -/
def Ordered (d : Document) : Prop :=
  d.EachTag Tag.Ordered

/-- Nothing inside a tag looks like a type but the types. -/
def Unambiguous (d : Document) : Prop :=
  d.EachTag Tag.Unambiguous

/-- A document reads back exactly if every tag in it does. -/
theorem ofJson?_toJson_iff :
    ofJson? d.toJson = some d ↔ d.EachTag fun tag => Tag.ofJson? tag.toJson = some tag := by
  obtain ⟨declarations, handlers⟩ := d
  have hhandlers : list? Handler.ofJson? (.arr (handlers.map Handler.toJson)) = some handlers :=
    list?_map_eq_some_iff.mpr fun handler _ => handler.ofJson?_toJson
  have hdeclarations :
      list? Declaration.ofJson? (.arr (declarations.map Declaration.toJson)) = some declarations ↔
        EachTag (fun tag => Tag.ofJson? tag.toJson = some tag) ⟨declarations, handlers⟩ :=
    list?_map_eq_some_iff.trans (forall₂_congr fun _ _ => Declaration.ofJson?_toJson_iff)
  rw [← hdeclarations]
  simp only [ofJson?, toJson, record?, required?, optional?]
  simp [hhandlers, Option.bind_eq_some_iff]

/-- A document whose only tag stands on a parameter. -/
def ofTag (tag : Tag) : Document :=
  { declarations := [(Declaration.ofParameter "page" .unknown).withTag "RequestParam" tag] }

theorem eachTag_ofTag_iff {tag : Tag} {P : Tag → Prop} : (ofTag tag).EachTag P ↔ P tag := by
  have hget : ∀ name,
      ((Declaration.ofParameter "page" .unknown).withTag "RequestParam" tag).tags.get name =
        if "RequestParam" = name then [tag] else [] :=
    fun name => TagMap.get_insert ∅ "RequestParam" tag name
  constructor
  · intro h
    exact h _ List.mem_cons_self "RequestParam" tag (by simp [hget])
  · intro h declaration hm name other ht
    obtain rfl := List.mem_singleton.mp hm
    rw [hget] at ht
    split at ht
    · exact List.mem_singleton.mp ht ▸ h
    · cases ht

/-- **Survives iff unambiguous.** A document survives being written and read exactly if nothing inside
a tag looks like a type without being one. -/
theorem survives_iff_unambiguous (ho : d.Ordered) :
    ofJson? d.toJson = some d ↔ d.Unambiguous := by
  rw [ofJson?_toJson_iff]
  exact forall₂_congr fun declaration hd => forall₂_congr fun name tag =>
    forall_congr' fun hm => Tag.ofJson?_toJson_iff (ho declaration hd name tag hm)

/-- A list that begins with the word of a kind but has an item too many, and a tag whose kind is none of
a type. -/
def nearMiss : Tag :=
  ⟨[("items", .list [.str "void", .type .void]), ("source", .tag [("kind", .str "header")])]⟩

theorem unambiguous_nearMiss : (ofTag nearMiss).Ordered ∧ (ofTag nearMiss).Unambiguous :=
  have hread : Tag.ofJson? nearMiss.toJson = some nearMiss := rfl
  have ho : (ofTag nearMiss).Ordered := eachTag_ofTag_iff.mpr (Tag.ordered_of_ofJson? hread)
  ⟨ho, (survives_iff_unambiguous ho).mp rfl⟩

/-- A list of one string, where the string is the word of a kind. -/
def kindWord : Tag :=
  ⟨[("value", .list [.str "void"])]⟩

/-- The list of one string is read back as a type. -/
theorem kindWord_lost : (ofTag kindWord).Ordered ∧
    ofJson? (ofTag kindWord).toJson = some (ofTag ⟨[("value", .type .void)]⟩) ∧
      ofJson? (ofTag kindWord).toJson ≠ some (ofTag kindWord) := by
  have hread : Tag.ofJson? kindWord.toJson = some ⟨[("value", .type .void)]⟩ := rfl
  refine ⟨eachTag_ofTag_iff.mpr (Tag.ordered_empty.set "value" ?_), rfl, fun h => ?_⟩
  · exact TagValue.ordered_list_iff.mpr (List.forall_mem_singleton.mpr fun _ hi => nomatch hi)
  · cases hread.symm.trans (eachTag_ofTag_iff.mp (ofJson?_toJson_iff.mp h))

/-! ## Documents that were read -/

theorem inside_of_mem_record? {keys : List String} {j : Json} {fields : List (String × Json)}
    (h : record? keys j = some fields) {f : String × Json} (hf : f ∈ fields) : Inside f.2 j := by
  cases j with
  | obj _ =>
    obtain rfl := Option.some.inj h
    exact .field hf .here
  | arr items =>
    obtain ⟨-, hz⟩ := Option.ite_none_right_eq_some.mp h
    obtain rfl := Option.some.inj hz
    exact .item (List.of_mem_zip hf).2 .here
  | _ => cases h

/-- Every declaration of a document that was read was read from a part. -/
theorem exists_inside_of_mem {j : Json} (h : ofJson? j = some d) {declaration : Declaration}
    (hm : declaration ∈ d.declarations) :
    ∃ i, Inside i j ∧ Declaration.ofJson? i = some declaration := by
  simp only [ofJson?, Option.bind_eq_bind, Option.bind_eq_some_iff] at h
  obtain ⟨fields, hrec, declarations, hdecl, _, -, hd⟩ := h
  obtain rfl := Option.some.inj hd
  obtain ⟨f, hf, hr⟩ := mem_of_required?_eq_some hdecl
  obtain ⟨i, hi, hr⟩ := exists_inside_of_list? hr hm
  exact ⟨i, hi.trans (inside_of_mem_record? hrec hf), hr⟩

theorem eachTag_of_ofJson? {j : Json} {P : Tag → Prop} (h : ofJson? j = some d)
    (hP : ∀ i tag, Inside i j → Tag.ofJson? i = some tag → P tag) : d.EachTag P := by
  intro declaration hm name tag ht
  obtain ⟨k, hk, hr⟩ := exists_inside_of_mem h hm
  obtain ⟨i, hi, hr⟩ := Declaration.exists_inside_of_mem_tags hr ht
  exact hP i tag (hi.trans hk) hr

/-- **Normal form.** Where no object repeats a key, what was read survives being written and read again,
and no value in it reads as a type after writing that did not before. -/
theorem survives_of_read {j : Json} (hj : j.DistinctKeys) (h : ofJson? j = some d) :
    ofJson? d.toJson = some d ∧ ∀ i v, Inside i j → TagValue.ofJson? i = some v →
      TypeRef.nested? v.toJson = TypeRef.nested? i := by
  refine ⟨ofJson?_toJson_iff.mpr (eachTag_of_ofJson? h fun i tag hi ht => ?_), fun i v hi hv => ?_⟩
  · have hu := Tag.unambiguous_of_ofJson? (hj.of_inside hi) ht
    exact (Tag.ofJson?_toJson_iff (Tag.ordered_of_ofJson? ht)).mpr hu
  · exact (TagValue.alike_toJson_of_ofJson? (hj.of_inside hi) hv).type

/-- A document in which everything that may be is an array, with keys that mean nothing, absent
attributes and a modifier that is repeated. -/
def loose : Json :=
  .arr [
    .arr [.obj [
      ("kind", .int 4), ("name", .str "page"), ("line", .real "1e3"),
      ("declared_type", .arr [.str "declared", .str "Page"]),
      ("modifiers", .arr [.str "final", .str "static", .obj [("final", .null)]]),
      ("tags", .obj [("RequestParam", .arr [.obj [
        ("type", .arr [.int 3, .obj [("kind", .str "void"), ("line", .int 7)]]),
        ("items", .arr [.str "void", .arr [.str "void"]])]])])]],
    .arr [.arr [.int 0, .arr [.int 0]]]]

theorem loose_survives : loose.DistinctKeys ∧ ∃ d, ofJson? loose = some d ∧
    ofJson? d.toJson = some d ∧ ∀ i v, Inside i loose → TagValue.ofJson? i = some v →
      TypeRef.nested? v.toJson = TypeRef.nested? i := by
  have hd : loose.DistinctKeys := by
    simp only [loose, distinctKeys_arr_iff, distinctKeys_obj_iff, List.forall_mem_cons]
    and_intros <;> first | decide | exact fun _ h => nomatch h
  obtain ⟨d, h⟩ := Option.isSome_iff_exists.mp (rfl : (ofJson? loose).isSome = true)
  exact ⟨hd, d, h, survives_of_read hd h⟩

end Document

end ApiDescription
