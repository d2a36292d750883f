import ApiDescription.Declaration.Form
import ApiDescription.Proofs.Form.Tags

/-!
# Reading declarations back

Every attribute of a declaration but its tags reads back as it was written, so a declaration reads back
if its tags do.

Results:
* `TypeInfo.ofFields?_eq_some`, `Kind.ofFields?_eq_some`: attributes are found wherever they stand among
  fields with distinct keys.
* `Declaration.readable_toJson`: a written declaration is readable.
* `Declaration.ofJson?_toJson`: a written declaration reads as itself, with the tags that its written
  tags read as.
* `Declaration.exists_inside_of_mem_tags`: the tags of a declaration that was read were read from parts.
-/

namespace ApiDescription

open Json

/-! ## Attributes -/

theorem Visibility.ofJson?_word (v : Visibility) : ofJson? (.str v.word) = some v := by
  cases v <;> rfl

theorem Modifier.ofJson?_word (m : Modifier) : ofJson? (.str m.word) = some m := by
  cases m <;> rfl

theorem Category.ofJson?_word (c : Category) : ofJson? (.str c.word) = some c := by
  cases c <;> rfl

theorem Modifiers.ofList_list?_words (modifiers : Modifiers) :
    ofList <$> list? Modifier.ofJson? (.arr (modifiers.toList.map fun m => .str m.word)) =
      some modifiers := by
  rw [list?_map_eq_some_iff.mpr fun m _ => Modifier.ofJson?_word m, Option.map_eq_map,
    Option.map_some, ofList_toList]

theorem Json.list?_strings (items : List String) : list? str? (strings items) = some items :=
  list?_map_eq_some_iff.mpr fun _ _ => rfl

theorem Json.list?_nats (ids : List Nat) : list? nat? (.arr (ids.map nat)) = some ids :=
  list?_map_eq_some_iff.mpr fun _ _ => rfl

theorem Json.nullable?_str (s : Option String) : nullable? str? (ofOption .str s) = some s := by
  cases s <;> rfl

theorem Json.nullable?_nat (id : Option Nat) : nullable? nat? (ofOption nat id) = some id := by
  cases id <;> rfl

namespace DocTags

theorem ofJson?_toJson (docs : DocTags) : ofJson? docs.toJson = some docs := by
  rw [ofJson?, toJson, nameMap?_ofNameMap_eq_some_iff.mpr fun _ lines _ => list?_strings lines]
  rfl

end DocTags

/-! ## Declarations -/

section Declarations

variable {fields : List (String × Json)}

/-- The attributes of a type are found wherever all of them stand. -/
theorem TypeInfo.ofFields?_eq_some (hd : (fields.map (·.1)).Nodup) {info : TypeInfo}
    (hs : info.toFields ⊆ fields) : ofFields? fields = some info := by
  simp only [toFields, List.cons_subset] at hs
  obtain ⟨hname, huri, hcategory, hparameters, hsupertypes, hmembers, -⟩ := hs
  rw [ofFields?, required?_eq_of_mem hd hname, optional?_eq_of_mem hd huri,
    optional?_eq_of_mem hd hcategory, optional?_eq_of_mem hd hparameters,
    optional?_eq_of_mem hd hsupertypes, optional?_eq_of_mem hd hmembers, nullable?_str,
    Category.ofJson?_word, list?_strings, list?_nats,
    list?_map_eq_some_iff.mpr fun t _ => TypeRef.nested?_toJson t]
  rfl

/-- A kind is found wherever it stands with all its attributes. -/
theorem Declaration.Kind.ofFields?_eq_some (hd : (fields.map (·.1)).Nodup) {kind : Kind}
    (hs : kind.toFields ⊆ fields) : ofFields? fields = some kind := by
  cases kind with
  | type info =>
    obtain ⟨hk, hs⟩ := List.cons_subset.mp hs
    rw [ofFields?, required?_eq_of_mem hd hk, TypeInfo.ofFields?_eq_some hd hs]
    rfl
  | method parameters =>
    simp only [toFields, List.cons_subset] at hs
    rw [ofFields?, required?_eq_of_mem hd hs.1, optional?_eq_of_mem hd hs.2.1, list?_nats]
    rfl
  | field enumConstant =>
    simp only [toFields, List.cons_subset] at hs
    rw [ofFields?, required?_eq_of_mem hd hs.1, optional?_eq_of_mem hd hs.2.1]
    rfl
  | property getter setter =>
    simp only [toFields, List.cons_subset] at hs
    rw [ofFields?, required?_eq_of_mem hd hs.1, optional?_eq_of_mem hd hs.2.1,
      optional?_eq_of_mem hd hs.2.2.1, nullable?_nat, nullable?_nat]
    rfl
  | parameter =>
    simp only [toFields, List.cons_subset] at hs
    rw [ofFields?, required?_eq_of_mem hd hs.1]
    rfl

end Declarations

namespace Declaration

variable {d : Declaration}

theorem Kind.readable_toFields (kind : Kind) : ∀ f ∈ kind.toFields, f.2.readable = true := by
  cases kind with
  | type info =>
    simp only [toFields, TypeInfo.toFields, List.forall_mem_cons]
    exact ⟨rfl, rfl, readable_ofOption (fun _ => rfl) _, rfl, readable_map (fun _ => rfl) _,
      readable_map TypeRef.readable_toJson _, readable_map (fun _ => rfl) _, nofun⟩
  | method parameters =>
    simp only [toFields, List.forall_mem_cons]
    exact ⟨rfl, readable_map (fun _ => rfl) _, nofun⟩
  | field enumConstant =>
    simp only [toFields, List.forall_mem_cons]
    exact ⟨rfl, rfl, nofun⟩
  | property getter setter =>
    simp only [toFields, List.forall_mem_cons]
    exact ⟨rfl, readable_ofOption (fun _ => rfl) _, readable_ofOption (fun _ => rfl) _, nofun⟩
  | parameter =>
    simp only [toFields, List.forall_mem_cons]
    exact ⟨rfl, nofun⟩

theorem readable_toJson (d : Declaration) : d.toJson.readable = true := by
  refine readable_obj_iff.mpr (List.forall_mem_append.mpr ⟨?_, d.kind.readable_toFields⟩)
  simp only [List.forall_mem_cons]
  exact ⟨rfl, rfl, readable_map (fun _ => rfl) _, d.tags.readable_toJson,
    readable_ofNameMap (readable_map fun _ => rfl) _, d.declaredType.readable_toJson, nofun⟩

/-- No key of a written declaration is repeated. -/
theorem nodup_keys_of_toJson {fields : List (String × Json)} (h : d.toJson = .obj fields) :
    (fields.map (·.1)).Nodup := by
  obtain rfl := Json.obj.inj h
  cases hk : d.kind <;> simp [Kind.toFields, TypeInfo.toFields]

/-- **A written declaration reads as itself, with the tags that its written tags read as.** -/
theorem ofJson?_toJson (d : Declaration) :
    ofJson? d.toJson = (TagMap.ofJson? d.tags.toJson).map fun tags => { d with tags } := by
  obtain ⟨fields, hw⟩ : ∃ fields, d.toJson = .obj fields := ⟨_, rfl⟩
  have hd := nodup_keys_of_toJson hw
  have hr : (Json.obj fields).readable = true := hw ▸ readable_toJson d
  obtain ⟨hs, hkind⟩ := List.append_subset.mp fun _ hf => Json.obj.inj hw ▸ hf
  simp only [List.cons_subset] at hs
  obtain ⟨hname, hvisibility, hmodifiers, htags, hdocs, htype, -⟩ := hs
  rw [hw]
  simp only [ofJson?, hr, required?_eq_of_mem hd hname, optional?_eq_of_mem hd hvisibility,
    optional?_eq_of_mem hd hmodifiers, optional?_eq_of_mem hd htags, optional?_eq_of_mem hd hdocs,
    required?_eq_of_mem hd htype, Kind.ofFields?_eq_some hd hkind, Visibility.ofJson?_word,
    Modifiers.ofList_list?_words, DocTags.ofJson?_toJson, TypeRef.ofJson?_toJson, str?]
  cases TagMap.ofJson? d.tags.toJson <;> rfl

theorem ofJson?_toJson_iff :
    ofJson? d.toJson = some d ↔
      ∀ name, ∀ tag ∈ d.tags.get name, Tag.ofJson? tag.toJson = some tag := by
  rw [ofJson?_toJson, Option.map_eq_some_iff, ← TagMap.ofJson?_toJson_iff]
  constructor
  · rintro ⟨tags, ht, hd⟩
    rw [ht, ← congrArg Declaration.tags hd]
  · intro h
    exact ⟨d.tags, h, rfl⟩

/-- Every tag of a declaration that was read was read from a part. -/
theorem exists_inside_of_mem_tags {j : Json} {name : String} {tag : Tag}
    (h : ofJson? j = some d) (hm : tag ∈ d.tags.get name) :
    ∃ i, Inside i j ∧ Tag.ofJson? i = some tag := by
  cases j with
  | obj fields =>
    simp only [ofJson?] at h
    split at h
    · cases h
    simp only [Option.bind_eq_bind, Option.bind_eq_some_iff] at h
    obtain ⟨_, -, _, -, _, -, tags, htags, _, -, _, -, _, -, hd⟩ := h
    obtain rfl := Option.some.inj hd
    rcases mem_of_optional?_eq_some htags with rfl | ⟨f, hf, hr⟩
    · exact nomatch TagMap.get_empty name ▸ hm
    · obtain ⟨i, hi, ht⟩ := TagMap.exists_inside_of_mem_get hr hm
      exact ⟨i, hi.trans (.field hf .here), ht⟩
  | _ => cases h

end Declaration

end ApiDescription
