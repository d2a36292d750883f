import ApiDescription.Proofs.Form.Elements
import ApiDescription.Proofs.Traversal
import ApiDescription.Toml.Basic
import Mathlib.Data.List.Forall2

/-!
# Tables by the paths of their keys

A path of keys leads into a table and the tables in it. What it leads to is a value if it is no table, so a
table is known by the values under its paths, whatever order its keys stand in. An array is one value.

Results:
* `fits_table_iff`, `layered_table_iff`, `distinct_table_iff`, `disjoint_table_iff`: what is said of all
  paths of a table, key by key.
* `Fits.layered`: where a table fits, its tables stand where they should.
* `eq_of_leaf?`: tables of the same keys, without tables in them, are told by their values.
* `Fits.leaf?_union`, `Fits.union`, `Distinct.union`: a table with what another has besides.
-/

namespace ApiDescription.Toml

/-! ## Paths -/

/-- What stands under a path of keys. -/
def get? : Toml → List String → Option Toml
  | t, [] => some t
  | .table entries, key :: path => (entries.lookup key).bind fun t => t.get? path
  | _, _ :: _ => none

/-- Whether a path ends here: a table goes on. -/
def isTable : Toml → Bool
  | .table _ => true
  | _ => false

/-- The value under a path of keys. -/
def leaf? (t : Toml) (path : List String) : Option Toml :=
  (t.get? path).filter fun v => !v.isTable

/-- Two values of one kind: strings, arrays of strings, or tables. -/
inductive SameKind : Toml → Toml → Prop
  | str (a b : String) : SameKind (.str a) (.str b)
  | strs (as bs : List String) : SameKind (.arr (as.map .str)) (.arr (bs.map .str))
  | table (entries others : List (String × Toml)) : SameKind (.table entries) (.table others)

/-- Every path of a table leads to what is of the same kind in another one. -/
def Fits (t full : Toml) : Prop :=
  ∀ path v, t.get? path = some v → ∃ default, full.get? path = some default ∧ v.SameKind default

/-- Where another table has a table, there is a table or nothing. -/
def Layered (t full : Toml) : Prop :=
  ∀ path v others, full.get? path = some (.table others) → t.get? path = some v →
    ∃ entries, v = .table entries

/-- The keys of each table are distinct. -/
def Distinct (t : Toml) : Prop :=
  ∀ path entries, t.get? path = some (.table entries) → (entries.map (·.1)).Nodup

/-- No path leads to a value in both tables. -/
def Disjoint (t u : Toml) : Prop :=
  ∀ path, t.leaf? path = none ∨ u.leaf? path = none

variable {t u v full : Toml} {entries others defaults : List (String × Toml)} {key : String}
  {path : List String}

@[simp] theorem get?_nil (t : Toml) : t.get? [] = some t := by
  cases t <;> rfl

theorem get?_table_cons :
    (table entries).get? (key :: path) = (entries.lookup key).bind fun t => t.get? path :=
  rfl

theorem get?_table_singleton : (table entries).get? [key] = entries.lookup key := by
  rw [get?_table_cons]
  cases entries.lookup key with
  | none => rfl
  | some t => exact get?_nil t

theorem get?_cons_of_isTable_eq_false (h : t.isTable = false) : t.get? (key :: path) = none := by
  cases t with
  | table entries => cases h
  | str value => rfl
  | scalar => rfl
  | arr items => rfl

theorem leaf?_eq_of_get?_eq {other : List String} (h : t.get? path = u.get? other) :
    t.leaf? path = u.leaf? other := by
  rw [leaf?, h, leaf?]

theorem leaf?_nil_of_isTable_eq_false (h : t.isTable = false) : t.leaf? [] = some t := by
  rw [leaf?, get?_nil, Option.filter_some, h]
  rfl

theorem leaf?_cons_of_isTable_eq_false (h : t.isTable = false) : t.leaf? (key :: path) = none := by
  rw [leaf?, get?_cons_of_isTable_eq_false h, Option.filter_none]

theorem leaf?_table_cons :
    (table entries).leaf? (key :: path) = (entries.lookup key).bind fun t => t.leaf? path := by
  rw [leaf?, get?_table_cons]
  cases entries.lookup key <;> rfl

theorem SameKind.isTable_eq (h : t.SameKind u) : t.isTable = u.isTable := by
  cases h <;> rfl

theorem isTable_eq_true_iff : t.isTable = true ↔ ∃ entries, t = .table entries := by
  cases t with
  | table entries => exact ⟨fun _ => ⟨entries, rfl⟩, fun _ => rfl⟩
  | str value => exact ⟨nofun, nofun⟩
  | scalar => exact ⟨nofun, nofun⟩
  | arr items => exact ⟨nofun, nofun⟩

theorem str?_eq_some_iff {a : String} : t.str? = some a ↔ t = .str a := by
  cases t <;> simp [str?]

theorem strs?_eq_some_iff {as : List String} : t.strs? = some as ↔ t = .arr (as.map .str) := by
  cases t with
  | arr items =>
    rw [strs?, mapM_eq_some_iff, arr.injEq, ← List.forall₂_eq_eq_eq, List.forall₂_map_left_iff,
      List.forall₂_map_right_iff, ← List.forall₂_eq_eq_eq, List.forall₂_map_right_iff]
    simp only [str?_eq_some_iff]
  | str value => exact ⟨nofun, nofun⟩
  | scalar => exact ⟨nofun, nofun⟩
  | table entries => exact ⟨nofun, nofun⟩

theorem sameKind_str_iff {a : String} : t.SameKind (.str a) ↔ ∃ b, t = .str b := by
  constructor
  · intro h
    cases h with
    | str b => exact ⟨b, rfl⟩
  · rintro ⟨b, rfl⟩
    exact .str b a

theorem sameKind_strs_iff {as : List String} :
    t.SameKind (.arr (as.map .str)) ↔ ∃ bs : List String, t = .arr (bs.map .str) := by
  constructor
  · intro h
    generalize hu : arr (as.map .str) = u at h
    cases h with
    | strs bs => exact ⟨bs, rfl⟩
    | str a b => cases hu
    | table entries others => cases hu
  · rintro ⟨bs, rfl⟩
    exact .strs bs as

/-! ## Key by key -/

/-- What holds of the ends of all paths of a table holds of it and of what is under its keys. -/
theorem forall_get?_table_iff {P : List String → Toml → Prop} :
    (∀ path v, (table entries).get? path = some v → P path v) ↔
      P [] (table entries) ∧ ∀ key t, entries.lookup key = some t →
        ∀ path v, t.get? path = some v → P (key :: path) v := by
  constructor
  · intro h
    refine ⟨h [] _ rfl, fun key t ht path v hv => h (key :: path) v ?_⟩
    rw [get?_table_cons, ht, Option.bind_some, hv]
  · rintro ⟨hroot, hkeys⟩ path v hv
    cases path with
    | nil =>
      rw [get?_nil, Option.some.injEq] at hv
      exact hv ▸ hroot
    | cons key path =>
      obtain ⟨t, ht, hv⟩ := Option.bind_eq_some_iff.mp hv
      exact hkeys key t ht path v hv

theorem fits_table_iff : (table entries).Fits (table defaults) ↔
    ∀ key t, entries.lookup key = some t → ∃ d, defaults.lookup key = some d ∧ t.Fits d := by
  unfold Fits
  rw [forall_get?_table_iff]
  constructor
  · rintro ⟨-, hkeys⟩ key t ht
    obtain ⟨d, hd, -⟩ := hkeys key t ht [] t (get?_nil t)
    obtain ⟨d, hd, hnil⟩ := Option.bind_eq_some_iff.mp hd
    refine ⟨d, hd, fun path v hv => ?_⟩
    obtain ⟨default, hdefault, hkind⟩ := hkeys key t ht path v hv
    rw [get?_table_cons, hd] at hdefault
    exact ⟨default, hdefault, hkind⟩
  · intro hkeys
    refine ⟨⟨_, rfl, .table entries defaults⟩, fun key t ht path v hv => ?_⟩
    obtain ⟨d, hd, hfits⟩ := hkeys key t ht
    obtain ⟨default, hdefault, hkind⟩ := hfits path v hv
    refine ⟨default, ?_, hkind⟩
    rw [get?_table_cons, hd]
    exact hdefault

theorem fits_table_of_forall
    (h : ∀ e ∈ entries, ∃ d, defaults.lookup e.1 = some d ∧ e.2.Fits d) :
    (table entries).Fits (table defaults) :=
  fits_table_iff.mpr fun key t ht => h (key, t) (Tag.mem_of_lookup_eq_some ht)

theorem layered_table_iff : (table entries).Layered (table defaults) ↔
    ∀ key t d, entries.lookup key = some t → defaults.lookup key = some d → t.Layered d := by
  constructor
  · intro h key t d ht hd path v others hfull hv
    refine h (key :: path) v others ?_ ?_
    · rw [get?_table_cons, hd, Option.bind_some, hfull]
    · rw [get?_table_cons, ht, Option.bind_some, hv]
  · intro h path v others hfull hv
    cases path with
    | nil =>
      rw [get?_nil, Option.some.injEq] at hv
      exact ⟨entries, hv.symm⟩
    | cons key path =>
      obtain ⟨d, hd, hfull⟩ := Option.bind_eq_some_iff.mp hfull
      obtain ⟨t, ht, hv⟩ := Option.bind_eq_some_iff.mp hv
      exact h key t d ht hd path v others hfull hv

theorem Layered.eq_table (h : t.Layered (table defaults)) : ∃ entries, t = .table entries :=
  h [] t defaults rfl (get?_nil t)

theorem distinct_table_iff : (table entries).Distinct ↔
    (entries.map (·.1)).Nodup ∧ ∀ e ∈ entries, e.2.Distinct := by
  constructor
  · intro h
    have hnodup : (entries.map (·.1)).Nodup := h [] entries rfl
    refine ⟨hnodup, fun e he path others hget => h (e.1 :: path) others ?_⟩
    rw [get?_table_cons, (Tag.lookup_eq_some_iff_mem hnodup).mpr he, Option.bind_some, hget]
  · rintro ⟨hnodup, hentries⟩ path others hget
    cases path with
    | nil =>
      obtain rfl : entries = others := by simpa using hget
      exact hnodup
    | cons key path =>
      obtain ⟨t, ht, hget⟩ := Option.bind_eq_some_iff.mp hget
      exact hentries _ (Tag.mem_of_lookup_eq_some ht) path others hget

theorem distinct_of_isTable_eq_false (h : t.isTable = false) : t.Distinct := by
  intro path entries hget
  cases path with
  | nil =>
    rw [get?_nil, Option.some.injEq] at hget
    subst hget
    cases h
  | cons key path =>
    rw [get?_cons_of_isTable_eq_false h] at hget
    cases hget

theorem disjoint_table_iff : (table entries).Disjoint (table others) ↔
    ∀ key t u, entries.lookup key = some t → others.lookup key = some u → t.Disjoint u := by
  constructor
  · intro h key t u ht hu path
    have hpath := h (key :: path)
    rwa [leaf?_table_cons, leaf?_table_cons, ht, hu] at hpath
  · intro h path
    cases path with
    | nil => exact .inl rfl
    | cons key path =>
      rw [leaf?_table_cons, leaf?_table_cons]
      cases ht : entries.lookup key with
      | none => exact .inl rfl
      | some t =>
        cases hu : others.lookup key with
        | none => exact .inr rfl
        | some u => exact h key t u ht hu path

theorem disjoint_table_of_forall
    (h : ∀ e ∈ entries, ∀ u, others.lookup e.1 = some u → e.2.Disjoint u) :
    (table entries).Disjoint (table others) :=
  disjoint_table_iff.mpr fun key t u ht => h (key, t) (Tag.mem_of_lookup_eq_some ht) u

theorem lookup_eq_none_of_not_mem (h : key ∉ entries.map (·.1)) : entries.lookup key = none := by
  rw [List.lookup_eq_none_iff]
  intro e he
  rw [bne_iff_ne]
  rintro rfl
  exact h (List.mem_map_of_mem he)

/-- Tables of the same keys, without tables in them, are equal if they have the same values. -/
theorem eq_of_leaf? (hkeys : entries.map (·.1) = others.map (·.1))
    (hnodup : (entries.map (·.1)).Nodup) (hentries : ∀ e ∈ entries, e.2.isTable = false)
    (hothers : ∀ e ∈ others, e.2.isTable = false)
    (h : ∀ path, (table entries).leaf? path = (table others).leaf? path) : entries = others := by
  have hlisted : ∀ {l : List (String × Toml)}, (l.map (·.1)).Nodup →
      (∀ e ∈ l, e.2.isTable = false) →
      l = (l.map (·.1)).map fun key => (key, ((table l).leaf? [key]).getD .scalar) := by
    intro l hl hleaf
    rw [List.map_map]
    conv_lhs => rw [← List.map_id l]
    refine List.map_congr_left fun e he => ?_
    rw [Function.comp_apply, leaf?_table_cons, (Tag.lookup_eq_some_iff_mem hl).mpr he,
      Option.bind_some, leaf?_nil_of_isTable_eq_false (hleaf e he)]
    rfl
  calc entries = _ := hlisted hnodup hentries
    _ = (others.map (·.1)).map fun key => (key, ((table others).leaf? [key]).getD .scalar) := by
      rw [hkeys]
      simp only [h]
    _ = others := (hlisted (hkeys ▸ hnodup) hothers).symm

@[simp] theorem distinct_str (value : String) : (str value).Distinct :=
  distinct_of_isTable_eq_false rfl

@[simp] theorem distinct_scalar : scalar.Distinct :=
  distinct_of_isTable_eq_false rfl

/-- Whatever an array holds, no path leads into it. -/
@[simp] theorem distinct_arr (items : List Toml) : (arr items).Distinct :=
  distinct_of_isTable_eq_false rfl

/-! ## Values in place of defaults -/

/-- What fits in place of a value is of its kind. -/
theorem fits_iff_of_isTable_eq_false (h : u.isTable = false) : t.Fits u ↔ t.SameKind u := by
  constructor
  · intro hfits
    obtain ⟨default, hdefault, hkind⟩ := hfits [] t (get?_nil t)
    rw [get?_nil, Option.some.injEq] at hdefault
    exact hdefault ▸ hkind
  · intro hkind path v hv
    cases path with
    | nil =>
      rw [get?_nil, Option.some.injEq] at hv
      exact ⟨u, get?_nil u, hv ▸ hkind⟩
    | cons key path =>
      rw [get?_cons_of_isTable_eq_false (hkind.isTable_eq.trans h)] at hv
      cases hv

theorem Fits.isTable_eq (h : t.Fits full) : t.isTable = full.isTable := by
  obtain ⟨default, hdefault, hkind⟩ := h [] t (get?_nil t)
  rw [get?_nil, Option.some.injEq] at hdefault
  exact hdefault ▸ hkind.isTable_eq

/-- What fits is a table in place of a table, or neither is one. -/
theorem Fits.leaf_or_tables (h : t.Fits full) : (t.isTable = false ∧ full.isTable = false) ∨
    ∃ entries defaults, t = .table entries ∧ full = .table defaults := by
  cases hfull : full.isTable with
  | false => exact .inl ⟨h.isTable_eq.trans hfull, rfl⟩
  | true =>
    obtain ⟨defaults, rfl⟩ := isTable_eq_true_iff.mp hfull
    obtain ⟨entries, rfl⟩ := isTable_eq_true_iff.mp (h.isTable_eq.trans hfull)
    exact .inr ⟨entries, defaults, rfl, rfl⟩

/-- Where a table fits, its tables stand where they should. -/
theorem Fits.layered (h : t.Fits full) : t.Layered full := by
  intro path v others hfull hv
  obtain ⟨default, hdefault, hkind⟩ := h path v hv
  rw [hfull, Option.some.injEq] at hdefault
  subst hdefault
  cases hkind with
  | table entries => exact ⟨entries, rfl⟩

/-! ## Unions -/

mutual

/-- A table with what another has besides: keys of either, and tables under a key of both put together. -/
def union : Toml → Toml → Toml
  | .table entries, .table others =>
    .table (unionEntries entries others ++ others.filter fun e => (entries.lookup e.1).isNone)
  | t, _ => t

/-- The entries of a table, with what is under the same keys of another besides. -/
def unionEntries : List (String × Toml) → List (String × Toml) → List (String × Toml)
  | [], _ => []
  | (key, t) :: rest, others =>
    (key, (others.lookup key).elim t fun u => t.union u) :: unionEntries rest others

end

/-- Nothing is put together but tables. -/
theorem union_eq_or (t u : Toml) :
    t.union u = t ∨ ∃ entries others, t = .table entries ∧ u = .table others := by
  cases t with
  | table entries =>
    cases u with
    | table others => exact .inr ⟨entries, others, rfl, rfl⟩
    | str value => exact .inl rfl
    | scalar => exact .inl rfl
    | arr items => exact .inl rfl
  | str value => exact .inl rfl
  | scalar => exact .inl rfl
  | arr items => exact .inl rfl

theorem union_of_isTable_eq_false (h : t.isTable = false) : t.union u = t := by
  rcases union_eq_or t u with heq | ⟨entries, others, rfl, rfl⟩
  · exact heq
  · cases h

theorem keys_unionEntries : (unionEntries entries others).map (·.1) = entries.map (·.1) := by
  induction entries with
  | nil => rfl
  | cons e rest ih => rw [unionEntries, List.map_cons, List.map_cons, ih]

theorem lookup_unionEntries : (unionEntries entries others).lookup key =
    (entries.lookup key).map fun t => (others.lookup key).elim t fun u => t.union u := by
  induction entries with
  | nil => rfl
  | cons e rest ih =>
    obtain ⟨name, t⟩ := e
    rw [unionEntries, Tag.lookup_cons_eq_ite, Tag.lookup_cons_eq_ite, ih]
    split
    · next hname => rw [hname, Option.map_some]
    · rfl

theorem lookup_filter (P : String → Bool) : (others.filter fun e => P e.1).lookup key =
    if P key then others.lookup key else none := by
  induction others with
  | nil => rw [List.filter_nil, List.lookup_nil, ite_self]
  | cons e rest ih =>
    obtain ⟨name, u⟩ := e
    by_cases hname : key = name
    · subst hname
      cases hP : P key <;> simp [hP, ih]
    · cases hP : P name <;> simp [Tag.lookup_cons_eq_ite, hP, hname, ih]

/-- Under a key of a union stands what either table has there, or what both have put together. -/
theorem lookup_union :
    (unionEntries entries others ++ others.filter fun e => (entries.lookup e.1).isNone).lookup key =
      (entries.lookup key).merge union (others.lookup key) := by
  rw [List.lookup_append, lookup_unionEntries, lookup_filter fun name => (entries.lookup name).isNone]
  cases entries.lookup key with
  | none =>
    rw [Option.map_none, Option.none_or, if_pos Option.isNone_none]
    cases others.lookup key <;> rfl
  | some t => cases others.lookup key <;> rfl

/-- Where a key of a union leads. -/
theorem get?_union_cons (entries others : List (String × Toml)) (key : String) (path : List String) :
    (entries.lookup key = none ∧
      ((table entries).union (table others)).get? (key :: path) =
        (table others).get? (key :: path)) ∨
    (others.lookup key = none ∧
      ((table entries).union (table others)).get? (key :: path) =
        (table entries).get? (key :: path)) ∨
    ∃ t u, entries.lookup key = some t ∧ others.lookup key = some u ∧
      ((table entries).union (table others)).get? (key :: path) = (t.union u).get? path := by
  rw [union, get?_table_cons, get?_table_cons, get?_table_cons, lookup_union]
  cases hentry : entries.lookup key with
  | none => exact .inl ⟨rfl, by rw [Option.merge_none_left]⟩
  | some t =>
    cases hother : others.lookup key with
    | none => exact .inr (.inl ⟨rfl, rfl⟩)
    | some u => exact .inr (.inr ⟨t, u, rfl, rfl, rfl⟩)

/-- What stands under a key in two tables that fit the same table fits what stands there. -/
theorem Fits.both (ht : (table entries).Fits (table defaults))
    (hu : (table others).Fits (table defaults)) (hentry : entries.lookup key = some t)
    (hother : others.lookup key = some u) :
    ∃ d, defaults.lookup key = some d ∧ t.Fits d ∧ u.Fits d := by
  obtain ⟨d, hd, htd⟩ := fits_table_iff.mp ht key t hentry
  obtain ⟨d', hd', hud⟩ := fits_table_iff.mp hu key u hother
  obtain rfl : d = d' := Option.some.inj (hd.symm.trans hd')
  exact ⟨d, hd, htd, hud⟩

/-- A union of tables that fit the same table fits it. -/
theorem Fits.union (ht : t.Fits full) (hu : u.Fits full) : (t.union u).Fits full := by
  intro path
  induction path generalizing t u full with
  | nil =>
    intro v hv
    rw [get?_nil, Option.some.injEq] at hv
    subst hv
    rcases ht.leaf_or_tables with ⟨hleaf, -⟩ | ⟨entries, defaults, rfl, rfl⟩
    · rw [union_of_isTable_eq_false hleaf]
      exact ht [] t (get?_nil t)
    · obtain ⟨others, rfl⟩ := hu.layered.eq_table
      exact ⟨_, rfl, .table _ defaults⟩
  | cons key path ih =>
    intro v hv
    rcases ht.leaf_or_tables with ⟨hleaf, -⟩ | ⟨entries, defaults, rfl, rfl⟩
    · rw [union_of_isTable_eq_false hleaf] at hv
      exact ht (key :: path) v hv
    · obtain ⟨others, rfl⟩ := hu.layered.eq_table
      rcases get?_union_cons entries others key path with
        ⟨-, heq⟩ | ⟨-, heq⟩ | ⟨t, u, hentry, hother, heq⟩
      · exact hu (key :: path) v (heq ▸ hv)
      · exact ht (key :: path) v (heq ▸ hv)
      · -- the path goes on in what both tables have under the key
        obtain ⟨d, hd, htd, hud⟩ := ht.both hu hentry hother
        rw [get?_table_cons, hd]
        exact ih htd hud v (heq ▸ hv)

/-- A union of tables that fit the same table has the values of both. -/
theorem Fits.leaf?_union (ht : t.Fits full) (hu : u.Fits full) (path : List String) :
    (t.union u).leaf? path = (t.leaf? path).or (u.leaf? path) := by
  induction path generalizing t u full with
  | nil =>
    rcases ht.leaf_or_tables with ⟨hleaf, -⟩ | ⟨entries, defaults, rfl, rfl⟩
    · rw [union_of_isTable_eq_false hleaf, leaf?_nil_of_isTable_eq_false hleaf, Option.some_or]
    · obtain ⟨others, rfl⟩ := hu.layered.eq_table
      rfl
  | cons key path ih =>
    rcases ht.leaf_or_tables with ⟨hleaf, hfull⟩ | ⟨entries, defaults, rfl, rfl⟩
    · rw [union_of_isTable_eq_false hleaf, leaf?_cons_of_isTable_eq_false hleaf,
        leaf?_cons_of_isTable_eq_false (hu.isTable_eq.trans hfull), Option.none_or]
    · obtain ⟨others, rfl⟩ := hu.layered.eq_table
      rcases get?_union_cons entries others key path with
        ⟨hnone, heq⟩ | ⟨hnone, heq⟩ | ⟨t, u, hentry, hother, heq⟩
      · rw [leaf?_eq_of_get?_eq heq, leaf?_table_cons, leaf?_table_cons, hnone, Option.bind_none,
          Option.none_or]
      · rw [leaf?_eq_of_get?_eq heq, leaf?_table_cons, leaf?_table_cons, hnone, Option.bind_none,
          Option.or_none]
      · obtain ⟨d, -, htd, hud⟩ := ht.both hu hentry hother
        rw [leaf?_eq_of_get?_eq heq, leaf?_table_cons, leaf?_table_cons, hentry, hother]
        exact ih htd hud

theorem nodup_keys_union (ht : (entries.map (·.1)).Nodup) (hu : (others.map (·.1)).Nodup) :
    ((unionEntries entries others ++
      others.filter fun e => (entries.lookup e.1).isNone).map (·.1)).Nodup := by
  rw [List.map_append, keys_unionEntries, List.nodup_append']
  refine ⟨ht, hu.sublist (List.filter_sublist.map _), fun key hkey hother => ?_⟩
  obtain ⟨e, he, rfl⟩ := List.mem_map.mp hother
  obtain ⟨-, hnone⟩ := List.mem_filter.mp he
  obtain ⟨e', he', hkey⟩ := List.mem_map.mp hkey
  have hlookup := (Tag.lookup_eq_some_iff_mem ht).mpr he'
  rw [hkey] at hlookup
  rw [hlookup] at hnone
  cases hnone

/-- A union of tables with distinct keys has distinct keys. -/
theorem Distinct.union (ht : t.Distinct) (hu : u.Distinct) : (t.union u).Distinct := by
  intro path
  induction path generalizing t u with
  | nil =>
    intro merged hmerged
    rcases union_eq_or t u with heq | ⟨entries, others, rfl, rfl⟩
    · exact ht [] merged (heq ▸ hmerged)
    · rw [Toml.union, get?_nil, Option.some.injEq, table.injEq] at hmerged
      exact hmerged ▸ nodup_keys_union (ht [] entries rfl) (hu [] others rfl)
  | cons key path ih =>
    intro merged hmerged
    rcases union_eq_or t u with heq | ⟨entries, others, rfl, rfl⟩
    · exact ht (key :: path) merged (heq ▸ hmerged)
    · rcases get?_union_cons entries others key path with
        ⟨-, heq⟩ | ⟨-, heq⟩ | ⟨t, u, hentry, hother, heq⟩
      · exact hu (key :: path) merged (heq ▸ hmerged)
      · exact ht (key :: path) merged (heq ▸ hmerged)
      · have htd : t.Distinct := (distinct_table_iff.mp ht).2 _ (Tag.mem_of_lookup_eq_some hentry)
        have hud : u.Distinct := (distinct_table_iff.mp hu).2 _ (Tag.mem_of_lookup_eq_some hother)
        exact ih htd hud merged (heq ▸ hmerged)

end ApiDescription.Toml
