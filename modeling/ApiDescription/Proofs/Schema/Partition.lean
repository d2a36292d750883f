import ApiDescription.Proofs.Schema.DataTypes
import ApiDescription.Proofs.Schema.Grouping

/-!
# Namespaces as a partition of the types

The namespaces of a list of types are the list taken apart by URI: each URI of the list once, in the
order of URIs, and under it the data types of its members in the order of the list. Nothing is lost and
nothing is added, so this determines the namespaces. The first member of the list that is no type, if
there is one, is reported instead.

Results:
* `exists_noType_iff`, `entry_eq_error_iff`: a position has no entry iff no type stands there.
* `map_ofModel_filter`: the data types of a URI are those of the positions that have the URI.
* `isPartition_of_entries`, `IsPartition.unique`: the groups of the entries are the one partition.
* `assemble_partition`: the namespaces of a list of positions, and the error if there are none.
-/

namespace ApiDescription.SchemaNamespace

variable {filter : AccessorFilter} {model : Model} {ids : List DeclId} {id : DeclId}
  {spaces spaces' : List SchemaNamespace} {e : ModelError} {uri : String}

/-! ## Positions without a type -/

/-- The URI of the type at a position, if a type stands there. The empty URI is that of the types
without one. -/
def uriAt? (model : Model) (id : DeclId) : Option String :=
  ((model.get? id).bind Declaration.type?).map fun info => info.uri.getD ""

/-- What is wrong with a position where no type stands. -/
inductive NoType (model : Model) (id : DeclId) : ModelError → Prop where
  | unknown (h : model.get? id = none) : NoType model id (.unknownDeclaration id)
  | otherKind {d : Declaration} (h : model.get? id = some d) (hk : ∀ info, d.kind ≠ .type info) :
      NoType model id (.wrongKind "namespace assembly" .type id)

theorem exists_noType_iff : (∃ e, NoType model id e) ↔ uriAt? model id = none := by
  unfold uriAt?
  constructor
  · rintro ⟨_, hunknown | ⟨hget, hk⟩⟩
    · rw [hunknown]
      rfl
    · rw [hget, Option.bind_some, Declaration.type?_eq_none_iff.mpr hk]
      rfl
  · intro hnone
    cases hget : model.get? id with
    | none => exact ⟨_, .unknown hget⟩
    | some d =>
      rw [hget, Option.bind_some, Option.map_eq_none_iff] at hnone
      exact ⟨_, .otherKind hget (Declaration.type?_eq_none_iff.mp hnone)⟩

/-- The entry of a position gives the URI and the data type of the type there. -/
theorem entry_of_uriAt? (filter : AccessorFilter) (h : uriAt? model id = some uri) :
    ∃ t, entry filter model id = .ok (uri, t) := by
  obtain ⟨info, hinfo, rfl⟩ := Option.map_eq_some_iff.mp h
  obtain ⟨d, hget, htype⟩ := Option.bind_eq_some_iff.mp hinfo
  have hk : d.kind = .type info := Declaration.type?_eq_some_iff.mp htype
  refine ⟨_, entry_eq_ok_iff.mpr ⟨DataType.ofModel_of_kind hget hk, d, hget, ?_⟩⟩
  rw [uriOf, htype, Option.bind_some]

theorem uriAt?_of_entry {e : String × DataType} (h : entry filter model id = .ok e) :
    uriAt? model id = some e.1 ∧ DataType.ofModel filter model id = .ok e.2 := by
  obtain ⟨ht, -⟩ := entry_eq_ok_iff.mp h
  obtain ⟨d, info, hget, hk, -⟩ := DataType.exists_kind_of_ofModel ht
  have huri : uriAt? model id = some (info.uri.getD "") := by
    simp [uriAt?, hget, Declaration.type?_eq_some_iff.mpr hk]
  obtain ⟨t, hentry⟩ := entry_of_uriAt? filter huri
  obtain rfl := Except.ok.inj (h.symm.trans hentry)
  exact ⟨huri, ht⟩

theorem NoType.entry_eq (h : NoType model id e) (filter : AccessorFilter) :
    entry filter model id = .error e := by
  refine bind_eq_error_iff.mpr (.inl ?_)
  cases h with
  | unknown hget => exact DataType.ofModel_of_none hget
  | otherKind hget hk => exact DataType.ofModel_of_no_type hget (Declaration.type?_eq_none_iff.mpr hk)

/-- A position has no entry iff no type stands there. -/
theorem entry_eq_error_iff : entry filter model id = .error e ↔ NoType model id e := by
  constructor
  · intro h
    have hnone : uriAt? model id = none := by
      refine Option.eq_none_iff_forall_ne_some.mpr fun uri huri => ?_
      obtain ⟨t, hentry⟩ := entry_of_uriAt? filter huri
      cases h.symm.trans hentry
    obtain ⟨e', hno⟩ := exists_noType_iff.mpr hnone
    obtain rfl := Except.error.inj ((hno.entry_eq filter).symm.trans h)
    exact hno
  · intro h
    exact h.entry_eq filter

/-! ## The partition -/

/-- Namespaces take a list of types apart by URI. -/
structure IsPartition (filter : AccessorFilter) (model : Model) (ids : List DeclId)
    (spaces : List SchemaNamespace) : Prop where
  ordered : spaces.Pairwise fun a b => a.uri < b.uri
  inhabited : ∀ space ∈ spaces, space.types ≠ []
  uris : ∀ uri, (∃ space ∈ spaces, space.uri = uri) ↔ ∃ id ∈ ids, uriAt? model id = some uri
  /-- The data types of a namespace stand in the order of the list, with repeats. -/
  types : ∀ space ∈ spaces, space.types.map .ok =
    (ids.filter fun id => uriAt? model id = some space.uri).map (DataType.ofModel filter model)
  /-- Put together, the namespaces are as long as the list. -/
  length : (spaces.flatMap (·.types)).length = ids.length

/-- The data types of a URI are those of the positions that have the URI. -/
theorem map_ofModel_filter {entries : List (String × DataType)}
    (h : ids.map (entry filter model) = entries.map .ok) (uri : String) :
    (typesAt entries uri).map .ok =
      (ids.filter fun id => uriAt? model id = some uri).map (DataType.ofModel filter model) := by
  induction ids generalizing entries with
  | nil =>
    obtain rfl : entries = [] := by simpa using h.symm
    rfl
  | cons id ids ih =>
    cases entries with
    | nil => simp at h
    | cons e entries =>
      obtain ⟨hentry, hrest⟩ := List.cons.inj h
      obtain ⟨huri, htype⟩ := uriAt?_of_entry hentry
      rw [typesAt_cons, List.map_append, ih hrest]
      by_cases he : e.1 = uri
      · simp [he, huri, htype]
      · simp [he, huri]

theorem isPartition_of_entries {entries : List (String × DataType)}
    (h : ids.map (entry filter model) = entries.map .ok) :
    IsPartition filter model ids ((group entries).toList.map fun g => ⟨g.1, g.2⟩) where
  ordered := List.pairwise_map.mpr (NameMap.pairwise_toList (group entries))
  inhabited := by
    intro space hspace
    obtain ⟨g, hg, rfl⟩ := List.mem_map.mp hspace
    exact (mem_toList_group_iff.mp hg).1
  uris := by
    intro uri
    constructor
    · rintro ⟨_, hspace, rfl⟩
      obtain ⟨g, hg, rfl⟩ := List.mem_map.mp hspace
      obtain ⟨hne, htypes⟩ := mem_toList_group_iff.mp hg
      obtain ⟨t, ht⟩ := List.exists_mem_of_ne_nil _ hne
      rw [htypes] at ht
      have hok : Except.ok (g.1, t) ∈ ids.map (entry filter model) :=
        h ▸ List.mem_map_of_mem (mem_typesAt_iff.mp ht)
      obtain ⟨id, hid, hentry⟩ := List.mem_map.mp hok
      exact ⟨id, hid, (uriAt?_of_entry hentry).1⟩
    · rintro ⟨id, hid, huri⟩
      obtain ⟨t, hentry⟩ := entry_of_uriAt? filter huri
      have hok : entry filter model id ∈ entries.map .ok := h ▸ List.mem_map_of_mem hid
      rw [hentry] at hok
      obtain ⟨e, he, heq⟩ := List.mem_map.mp hok
      obtain rfl := Except.ok.inj heq
      have hmem : t ∈ typesAt entries uri := mem_typesAt_iff.mpr he
      exact ⟨⟨uri, typesAt entries uri⟩, List.mem_map.mpr ⟨(uri, typesAt entries uri),
        mem_toList_group_iff.mpr ⟨List.ne_nil_of_mem hmem, rfl⟩, rfl⟩, rfl⟩
  types := by
    intro space hspace
    obtain ⟨g, hg, rfl⟩ := List.mem_map.mp hspace
    rw [(mem_toList_group_iff.mp hg).2]
    exact map_ofModel_filter h g.1
  length := by
    have hlength : ids.length = entries.length := by simpa using congrArg List.length h
    rw [List.flatMap_map, (flatMap_group_perm entries).length_eq, List.length_map, hlength]

theorem IsPartition.subset (h : IsPartition filter model ids spaces)
    (h' : IsPartition filter model ids spaces') : spaces ⊆ spaces' := by
  intro space hspace
  obtain ⟨other, hother, huri⟩ := (h'.uris space.uri).mpr ((h.uris space.uri).mp ⟨space, hspace, rfl⟩)
  have htypes : other.types.map (Except.ok (ε := ModelError)) = space.types.map .ok := by
    rw [h'.types other hother, h.types space hspace, huri]
  have hok : Function.Injective (Except.ok : DataType → Except ModelError DataType) :=
    fun _ _ => Except.ok.inj
  have heq : other = space := by
    cases other
    cases space
    rw [mk.injEq]
    exact ⟨huri, List.map_injective_iff.mpr hok htypes⟩
  exact heq ▸ hother

/-- A list of types is taken apart in one way. -/
theorem IsPartition.unique (h : IsPartition filter model ids spaces)
    (h' : IsPartition filter model ids spaces') : spaces = spaces' :=
  eq_of_mem_iff h.ordered h'.ordered fun _ => ⟨(h.subset h' ·), (h'.subset h ·)⟩

/-! ## The namespaces of a list of positions -/

theorem exists_entry_iff_noType (filter : AccessorFilter) :
    (∃ t, entry filter model id = .ok t) ↔ ∀ e, ¬ NoType model id e := by
  simp only [← @entry_eq_error_iff filter]
  cases entry filter model id <;> simp

/-- The first position without a type is reported. -/
theorem assemble_eq_error_iff :
    assemble filter model ids = .error e ↔ ∃ before id after, ids = before ++ id :: after ∧
      (∀ b ∈ before, ∀ e', ¬ NoType model b e') ∧ NoType model id e := by
  have hentries : assemble filter model ids = .error e ↔
      ids.mapM (entry filter model) = .error e := by
    unfold assemble
    rw [bind_eq_error_iff]
    refine or_iff_left ?_
    rintro ⟨_, -, hpure⟩
    cases hpure
  simp only [hentries, mapM_eq_error_iff, exists_entry_iff_noType, entry_eq_error_iff]

theorem exists_assemble_iff_noType :
    (∃ spaces, assemble filter model ids = .ok spaces) ↔ ∀ id ∈ ids, ∀ e, ¬ NoType model id e := by
  simp only [← exists_entry_iff_noType filter, ← exists_mapM_eq_ok_iff, assemble,
    bind_eq_ok_iff]
  exact ⟨fun ⟨_, entries, h, _⟩ => ⟨entries, h⟩, fun ⟨entries, h⟩ => ⟨_, entries, h, rfl⟩⟩

theorem isPartition_of_assemble (h : assemble filter model ids = .ok spaces) :
    IsPartition filter model ids spaces := by
  obtain ⟨entries, hentries, rfl⟩ := assemble_eq_ok_iff.mp h
  exact isPartition_of_entries hentries

/-- **The namespaces of a list of positions.** They cannot be made iff no type stands at one of the
positions, and then the first such position is reported: that it is unknown, or that something else
than a type stands there. Otherwise they are the partition of the list by URI, and there is but one. -/
theorem assemble_partition (filter : AccessorFilter) (model : Model) (ids : List DeclId) :
    (∀ e, assemble filter model ids = .error e ↔ ∃ before id after,
      ids = before ++ id :: after ∧ (∀ b ∈ before, ∀ e', ¬ NoType model b e') ∧ NoType model id e) ∧
    ((∃ e, assemble filter model ids = .error e) ↔ ∃ id ∈ ids, ∃ e, NoType model id e) ∧
    ∀ spaces, assemble filter model ids = .ok spaces ↔
      (∀ id ∈ ids, ∀ e, ¬ NoType model id e) ∧ IsPartition filter model ids spaces := by
  refine ⟨fun e => assemble_eq_error_iff, ?_, fun spaces => ⟨fun h => ?_, ?_⟩⟩
  · -- what does not succeed fails
    have hnot : (∃ e, assemble filter model ids = .error e) ↔
        ¬ ∃ spaces, assemble filter model ids = .ok spaces := by
      cases assemble filter model ids <;> simp
    rw [hnot, exists_assemble_iff_noType]
    push Not
    rfl
  · exact ⟨exists_assemble_iff_noType.mp ⟨spaces, h⟩, isPartition_of_assemble h⟩
  · rintro ⟨htypes, hpartition⟩
    obtain ⟨spaces', h⟩ := exists_assemble_iff_noType.mpr htypes
    rw [h, (isPartition_of_assemble h).unique hpartition]

end ApiDescription.SchemaNamespace
