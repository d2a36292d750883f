import ApiDescription.Model.Subtyping
import ApiDescription.Proofs.Form.Elements

/-!
# Looking declarations up

What the questions to a model answer, in terms of the declarations at its positions. No two types of a
model share a name, so a name stands at one position at most, and the search for it finds that one.
Every reference of a declaration of a model leads somewhere.

Results:
* `nodup_typeNames_iff`: no two types share a name iff a name stands at one position at most.
* `decl_eq_ok_iff`, `decl_eq_error_iff`: a position answers iff it is in the model.
* `mem_entries_iff`, `mem_types_iff`: what the listings of declarations and types hold.
* `map_fst_filter_entries`: the positions of the declarations of one sort.
* `exists_ofDeclarations_iff`: declarations form a model iff they are consistent.
* `getElem?_typeIndex`: the index has every type at its position.
* `findType?_eq_some_iff`, `findType?_eq_none_iff`: a name is found iff a type of that name stands at the
  position, and is not found iff the model has no such type.
* `members_eq`, `eq_members_iff`: the members of a type are the declarations its references lead to, none
  dropped, and no other list is; `filterMap_members`: a selection from them goes through the references.
* `getElem?_supertypeNames`: the table of supertypes holds those of the type that a name finds.
-/

namespace ApiDescription

variable {model : Model} {id : DeclId} {d : Declaration}

theorem Declaration.type?_eq_some_iff {info : TypeInfo} :
    d.type? = some info ↔ d.kind = .type info := by
  unfold Declaration.type?
  split <;> simp_all

theorem Declaration.type?_eq_none_iff : d.type? = none ↔ ∀ info, d.kind ≠ .type info := by
  unfold Declaration.type?
  split <;> simp_all

theorem Declaration.typeName?_eq_some_iff {name : String} :
    d.typeName? = some name ↔ ∃ info, d.kind = .type info ∧ info.qualifiedName = name := by
  simp only [typeName?, Option.map_eq_some_iff, type?_eq_some_iff]

theorem Declaration.parameters?_eq_some_iff {ids : List DeclId} :
    d.parameters? = some ids ↔ d.kind = .method ids := by
  unfold Declaration.parameters?
  split <;> simp_all

theorem Declaration.parameters?_eq_none_iff :
    d.parameters? = none ↔ ∀ ids, d.kind ≠ .method ids := by
  unfold Declaration.parameters?
  split <;> simp_all

/-- No two types share a qualified name iff a name stands at one position at most. -/
theorem nodup_typeNames_iff {decls : List Declaration} :
    (decls.filterMap Declaration.typeName?).Nodup ↔
      ∀ (i j : DeclId) (d d' : Declaration) (name : String), decls[i]? = some d →
        decls[j]? = some d' → d.typeName? = some name → d'.typeName? = some name → i = j := by
  rw [List.Nodup, List.pairwise_filterMap, List.pairwise_iff_getElem]
  constructor
  · intro h i j d d' name hi hj hn hn'
    obtain ⟨hil, rfl⟩ := List.getElem?_eq_some_iff.mp hi
    obtain ⟨hjl, rfl⟩ := List.getElem?_eq_some_iff.mp hj
    rcases Nat.lt_trichotomy i j with hlt | heq | hlt
    · exact absurd rfl (h i j hil hjl hlt name hn name hn')
    · exact heq
    · exact absurd rfl (h j i hjl hil hlt name hn' name hn)
  · rintro h i j hi hj hlt name hn _ hn' rfl
    exact Nat.ne_of_lt hlt (h i j _ _ name (List.getElem?_eq_getElem hi)
      (List.getElem?_eq_getElem hj) hn hn')

namespace Model

/-! ## Positions -/

theorem get?_eq_none_iff : model.get? id = none ↔ model.size ≤ id :=
  List.getElem?_eq_none_iff

theorem exists_get?_iff : (∃ d, model.get? id = some d) ↔ id < model.size := by
  rw [← Option.isSome_iff_exists, get?]
  simp [size]

theorem decl_eq_ok_iff : model.decl id = .ok d ↔ model.get? id = some d := by
  unfold decl
  cases model.get? id <;> simp

theorem decl_eq_error_iff {e : ModelError} :
    model.decl id = .error e ↔ model.size ≤ id ∧ e = .unknownDeclaration id := by
  rw [← get?_eq_none_iff]
  unfold decl
  cases model.get? id <;> simp [eq_comm]

theorem mem_entries_iff : (id, d) ∈ model.entries ↔ model.get? id = some d := by
  simp only [entries, List.mem_map, Prod.mk.injEq]
  constructor
  · rintro ⟨⟨d', i⟩, hm, rfl, rfl⟩
    exact List.mem_zipIdx_iff_getElem?.mp hm
  · intro h
    exact ⟨(d, id), List.mem_zipIdx_iff_getElem?.mpr h, rfl, rfl⟩

theorem mem_types_iff : (id, d) ∈ model.types ↔ model.get? id = some d ∧ d.type?.isSome := by
  rw [types, List.mem_filter, mem_entries_iff]

theorem map_fst_entries (model : Model) : model.entries.map (·.1) = List.range model.size := by
  rw [entries, List.map_map, List.range_eq_range']
  exact List.zipIdx_map_snd 0 model.decls

/-- The positions of the declarations of one sort, in order. -/
theorem map_fst_filter_entries (model : Model) (p : Declaration → Bool) :
    (model.entries.filter fun e => p e.2).map (·.1) =
      (List.range model.size).filter fun id => (model.get? id).any p := by
  have hfilter : (model.entries.filter fun e => p e.2) =
      model.entries.filter fun e => (model.get? e.1).any p := by
    refine List.filter_congr fun e he => ?_
    have hget : model.get? e.1 = some e.2 := mem_entries_iff.mp he
    simp [hget]
  rw [hfilter, ← map_fst_entries, List.filter_map]
  rfl

/-! ## References -/

theorem exists_ofDeclarations_iff {decls : List Declaration} :
    (∃ model, ofDeclarations decls = .ok model) ↔ Consistent decls := by
  constructor
  · rintro ⟨model, h⟩
    exact (ofDeclarations_eq_ok_iff.mp h).1
  · intro hc
    exact ⟨{ decls, consistent := hc }, ofDeclarations_eq_ok_iff.mpr ⟨hc, rfl⟩⟩

/-- Every model is one that its declarations make. -/
theorem ofDeclarations_decls (model : Model) : ofDeclarations model.decls = .ok model :=
  ofDeclarations_eq_ok_iff.mpr ⟨model.consistent, rfl⟩

theorem wellLinked_of_get? (h : model.get? id = some d) : d.WellLinked model.decls :=
  model.consistent.linked d (List.mem_of_getElem? h)

/-- The parameters of a method of a model are parameters of the model. -/
theorem exists_parameter {ids : List DeclId} {parameter : DeclId} (h : model.get? id = some d)
    (hk : d.kind = .method ids) (hp : parameter ∈ ids) :
    ∃ p, model.get? parameter = some p ∧ p.isParameter = true := by
  have hl := wellLinked_of_get? h
  rw [Declaration.WellLinked, hk] at hl
  exact hl parameter hp

/-- The members of a type of a model are in the model. -/
theorem exists_member {info : TypeInfo} {member : DeclId} (h : model.get? id = some d)
    (hk : d.kind = .type info) (hm : member ∈ info.members) :
    ∃ m, model.get? member = some m := by
  have hl := wellLinked_of_get? h
  rw [Declaration.WellLinked, hk] at hl
  exact exists_get?_iff.mpr (hl member hm)

/-- The accessor methods of a property of a model are in the model. -/
theorem exists_accessorMethod {getter setter : Option DeclId} {method : DeclId}
    (h : model.get? id = some d) (hk : d.kind = .property getter setter)
    (hm : method ∈ getter.toList ++ setter.toList) : ∃ m, model.get? method = some m := by
  have hl := wellLinked_of_get? h
  rw [Declaration.WellLinked, hk] at hl
  exact exists_get?_iff.mpr (hl method hm)

/-- Whatever stands at a position, its members are declarations of the model. -/
theorem get?_of_mem_members {e : DeclId × Declaration} (he : e ∈ model.members id) :
    model.get? e.1 = some e.2 := by
  unfold members at he
  split at he
  · obtain ⟨member, -, hf⟩ := List.mem_filterMap.mp he
    obtain ⟨m, hget, rfl⟩ := Option.map_eq_some_iff.mp hf
    exact hget
  · cases he

theorem members_of_kind {info : TypeInfo} (h : model.get? id = some d) (hk : d.kind = .type info) :
    model.members id = info.members.filterMap fun member => (model.get? member).map (member, ·) := by
  rw [members, h, Option.bind_some, Declaration.type?_eq_some_iff.mpr hk]

/-- A selection from the members of a type goes through their positions, and reads what stands there. -/
theorem filterMap_members {α : Type} {info : TypeInfo} (f : DeclId → Declaration → Option α)
    (h : model.get? id = some d) (hk : d.kind = .type info) :
    (model.members id).filterMap (fun e => f e.1 e.2) =
      info.members.filterMap fun member => (model.get? member).bind (f member) := by
  rw [members_of_kind h hk, List.filterMap_filterMap]
  simp only [Option.bind_map, Function.comp_def]

/-- The members of a type are the declarations that its references lead to, with none dropped. -/
theorem members_eq {info : TypeInfo} (h : model.get? id = some d) (hk : d.kind = .type info) :
    (model.members id).map (·.1) = info.members ∧
      ∀ e ∈ model.members id, model.get? e.1 = some e.2 := by
  refine ⟨?_, fun e he => get?_of_mem_members he⟩
  rw [members_of_kind h hk, List.map_filterMap]
  refine (List.filterMap_congr fun member hmem => ?_).trans List.filterMap_some
  obtain ⟨m, hget⟩ := exists_member h hk hmem
  simp [hget]

/-- No other list has the positions that a type refers to, with what stands at each of them. -/
theorem eq_members_iff {info : TypeInfo} (h : model.get? id = some d) (hk : d.kind = .type info)
    {members : List (DeclId × Declaration)} :
    members = model.members id ↔
      members.map (·.1) = info.members ∧ ∀ e ∈ members, model.get? e.1 = some e.2 := by
  constructor
  · rintro rfl
    exact members_eq h hk
  · rintro ⟨hids, hget⟩
    rw [members_of_kind h hk, ← hids, List.filterMap_map]
    refine (List.filterMap_some.symm.trans (List.filterMap_congr fun e he => ?_))
    simp [hget e he]

/-! ## Names -/

/-- The index has the types of a list of declarations at their positions, if no two share a name. -/
theorem getElem?_typeIndex {decls : List Declaration}
    (hnodup : (decls.filterMap Declaration.typeName?).Nodup) {name : String} :
    (typeIndex decls)[name]? = some id ↔ ∃ d, decls[id]? = some d ∧ d.typeName? = some name := by
  induction decls using List.reverseRecOn generalizing id with
  | nil => simp [typeIndex]
  | append_singleton decls last ih =>
    have hstep : typeIndex (decls ++ [last]) = enter (typeIndex decls) decls.length last := by
      simp [typeIndex, List.zipIdx_append]
    rw [List.filterMap_append, List.nodup_append] at hnodup
    obtain ⟨hbefore, -, hdisjoint⟩ := hnodup
    have hposition : (∃ d, (decls ++ [last])[id]? = some d ∧ d.typeName? = some name) ↔
        (∃ d, decls[id]? = some d ∧ d.typeName? = some name) ∨
          decls.length = id ∧ last.typeName? = some name := by
      rw [List.getElem?_append]
      split
      · next hlt => simp [Nat.ne_of_gt hlt]
      · next hge =>
        have hnone : decls[id]? = none := List.getElem?_eq_none (Nat.le_of_not_lt hge)
        simp only [List.getElem?_singleton, hnone]
        by_cases heq : id - decls.length = 0
        · have hid : decls.length = id :=
            Nat.le_antisymm (Nat.le_of_not_lt hge) (Nat.sub_eq_zero_iff_le.mp heq)
          simp [hid]
        · have hid : decls.length ≠ id := fun he => heq (by rw [he, Nat.sub_self])
          simp [heq, hid]
    rw [hstep, hposition, ← ih hbefore, enter]
    cases hlast : last.typeName? with
    | none => simp
    | some other =>
      rw [Std.ExtTreeMap.getElem?_insert]
      by_cases hname : other = name
      · -- the name of the last type is none of those before it
        have hnew : (typeIndex decls)[name]? ≠ some id := by
          intro hold
          obtain ⟨d, hd, hn⟩ := (ih hbefore).mp hold
          exact hdisjoint name (List.mem_filterMap.mpr ⟨d, List.mem_of_getElem? hd, hn⟩) name
            (by simp [hlast, hname]) rfl
        simp [hname, hnew]
      · simp [hname]

/-- **A name finds the type that has it.** -/
theorem findType?_eq_some_iff {name : String} :
    model.findType? name = some (id, d) ↔ model.get? id = some d ∧ d.typeName? = some name := by
  have hindex : model.index[name]? = some id ↔
      ∃ d, model.get? id = some d ∧ d.typeName? = some name := by
    rw [model.index_eq, getElem?_typeIndex model.consistent.nodup]
    rfl
  unfold findType?
  simp only [Option.bind_eq_bind, Option.bind_eq_some_iff, Option.map_eq_some_iff, Prod.mk.injEq]
  constructor
  · rintro ⟨_, hget, _, hd, rfl, rfl⟩
    obtain ⟨d', hd', hn⟩ := hindex.mp hget
    exact ⟨hd, Option.some.inj (hd.symm.trans hd') ▸ hn⟩
  · rintro ⟨hd, hn⟩
    exact ⟨id, hindex.mpr ⟨d, hd, hn⟩, d, hd, rfl, rfl⟩

/-- A name finds a type iff the model has it. -/
theorem exists_findType?_iff {name : String} :
    (∃ id, model.findType? name = some (id, d)) ↔ d ∈ model.decls ∧ d.typeName? = some name := by
  simp only [findType?_eq_some_iff, exists_and_right, List.mem_iff_getElem?]
  rfl

theorem findType?_eq_none_iff {name : String} :
    model.findType? name = none ↔ ∀ d ∈ model.decls, d.typeName? ≠ some name := by
  simp only [Option.eq_none_iff_forall_ne_some, Prod.forall, ne_eq, ← not_and,
    ← exists_findType?_iff, not_exists]
  exact forall_comm

/-- The names of the direct supertypes of a type declaration, with the type's own name. -/
def namedSupertypes? (d : Declaration) : Option (String × List String) :=
  d.type?.map fun info => (info.qualifiedName, info.supertypes.filterMap TypeRef.qualifiedName?)

theorem getElem?_supertypeNames (model : Model) (name : String) :
    model.supertypeNames[name]? =
      (model.findType? name).bind fun e => (namedSupertypes? e.2).map (·.2) := by
  have hkeys : (model.decls.filterMap namedSupertypes?).map (·.1) =
      model.decls.filterMap Declaration.typeName? := by
    rw [List.map_filterMap]
    refine List.filterMap_congr fun d _ => ?_
    rw [namedSupertypes?, Option.map_map]
    rfl
  have hnd : ((model.decls.filterMap namedSupertypes?).map (·.1)).Nodup :=
    hkeys ▸ model.consistent.nodup
  have htable : model.supertypeNames = NameMap.ofPairs (model.decls.filterMap namedSupertypes?) := rfl
  rw [htable, NameMap.getElem?_ofPairs, Tag.lookup_reverse hnd]
  refine Option.ext fun supertypes => ?_
  simp only [Tag.lookup_eq_some_iff_mem hnd, List.mem_filterMap, Option.bind_eq_some_iff,
    Prod.exists, findType?_eq_some_iff, Option.map_eq_some_iff, namedSupertypes?, Prod.mk.injEq]
  constructor
  · rintro ⟨d, hd, info, hi, rfl, rfl⟩
    obtain ⟨id, hid⟩ := List.mem_iff_getElem?.mp hd
    exact ⟨id, d, ⟨hid, by simp [Declaration.typeName?, hi]⟩, _, _, ⟨info, hi, rfl, rfl⟩, rfl⟩
  · rintro ⟨id, d, ⟨hid, hn⟩, _, _, ⟨info, hi, rfl, rfl⟩, rfl⟩
    refine ⟨d, List.mem_of_getElem? hid, info, hi, ?_, rfl⟩
    simpa [Declaration.typeName?, hi] using hn

end Model

end ApiDescription
