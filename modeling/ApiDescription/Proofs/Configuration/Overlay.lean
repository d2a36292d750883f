import ApiDescription.Configuration.Form
import ApiDescription.Proofs.Toml.Paths

/-!
# Overlaying a table on a record

A record can be listed as a table of all its names. Each entry of a table sets one name of a record, and
leaves the others alone, so a whole table does so too: what it gives replaces what is listed, path by path.
The same holds of a record whose settings are records of their own.

Results:
* `exists_overlay?_iff`, `leaf?_overlay?`: from what each entry does to what a table does.
* `Lawful`: what a setting does to the listing of its record, for strings (`lawful_text`), lists of strings
  (`lawful_texts`) and records (`Spells.lawful_part`).
* `Spells.exists_overlay?_iff`, `Spells.leaf?_overlay?`: a table overlays a record with lawful settings iff
  it fits its listing.
-/

namespace ApiDescription.Setting

open Toml

variable {R S : Type} {settings : List (Setting R)} {names : R → List (String × Toml)}
  {entries defaults : List (String × Toml)} {key : String} {value default t : Toml}
  {record record' : R}

/-! ## From entries to tables -/

/-- What an entry of a table makes of a record. -/
def take? (settings : List (Setting R)) (record : R) (e : String × Toml) : Option R :=
  (settings.find? fun setting => setting.key = e.1).bind fun setting => setting.set record e.2

/-- An entry is taken where it is admitted, and then sets what is listed under its key and nothing else. -/
structure Takes (settings : List (Setting R)) (names : R → List (String × Toml)) (admitted : Prop)
    (key : String) (value : Toml) : Prop where
  exists_take?_iff : ∀ record, (∃ record', take? settings record (key, value) = some record') ↔ admitted
  leaf?_take? : ∀ record record', take? settings record (key, value) = some record' →
    ∀ other path, (table (names record')).leaf? (other :: path) =
      (if other = key then value.leaf? path else none).or
        ((table (names record)).leaf? (other :: path))

theorem Takes.congr {admitted admitted' : Prop} (h : Takes settings names admitted key value)
    (hiff : admitted ↔ admitted') : Takes settings names admitted' key value :=
  propext hiff ▸ h

theorem overlay?_cons (record : R) (e : String × Toml) (rest : List (String × Toml)) :
    overlay? settings record (.table (e :: rest)) =
      (take? settings record e).bind fun record => overlay? settings record (.table rest) :=
  rfl

/-- A table overlays a record iff each of its entries is admitted. -/
theorem exists_overlay?_iff {Admits : String → Toml → Prop}
    (h : ∀ e ∈ entries, Takes settings names (Admits e.1 e.2) e.1 e.2) (record : R) :
    (∃ record', overlay? settings record (.table entries) = some record') ↔
      ∀ e ∈ entries, Admits e.1 e.2 := by
  induction entries generalizing record with
  | nil => exact ⟨fun _ => nofun, fun _ => ⟨record, rfl⟩⟩
  | cons e rest ih =>
    obtain ⟨hfirst, hrest⟩ := List.forall_mem_cons.mp h
    rw [overlay?_cons, List.forall_mem_cons, ← hfirst.exists_take?_iff record]
    simp only [Option.bind_eq_some_iff]
    constructor
    · rintro ⟨last, next, hnext, hlast⟩
      exact ⟨⟨next, hnext⟩, (ih hrest next).mp ⟨last, hlast⟩⟩
    · rintro ⟨⟨next, hnext⟩, hadmitted⟩
      obtain ⟨last, hlast⟩ := (ih hrest next).mpr hadmitted
      exact ⟨last, next, hnext, hlast⟩

/-- A table with distinct keys replaces what it gives, and nothing else. -/
theorem leaf?_overlay? {Admits : String → Toml → Prop}
    (h : ∀ e ∈ entries, Takes settings names (Admits e.1 e.2) e.1 e.2)
    (hnodup : (entries.map (·.1)).Nodup)
    (hrecord' : overlay? settings record (.table entries) = some record') (path : List String) :
    (table (names record')).leaf? path =
      ((table entries).leaf? path).or ((table (names record)).leaf? path) := by
  cases path with
  | nil => rfl
  | cons other path =>
    -- the record that the first entry leaves is the one that the rest overlays
    induction entries generalizing record with
    | nil =>
      obtain rfl : record = record' := Option.some.inj hrecord'
      rfl
    | cons e rest ih =>
      obtain ⟨key, value⟩ := e
      obtain ⟨hfirst, hrest⟩ := List.forall_mem_cons.mp h
      obtain ⟨hkey, hnodup⟩ := List.nodup_cons.mp hnodup
      rw [overlay?_cons] at hrecord'
      obtain ⟨next, hnext, hlast⟩ := Option.bind_eq_some_iff.mp hrecord'
      rw [ih hrest hnodup hlast, hfirst.leaf?_take? record next hnext, leaf?_table_cons,
        leaf?_table_cons, leaf?_table_cons, Tag.lookup_cons_eq_ite]
      by_cases hother : other = key
      · -- no later entry has the key
        have hnone : rest.lookup other = none := lookup_eq_none_of_not_mem (hother ▸ hkey)
        rw [hnone, if_pos hother, if_pos hother, Option.bind_none, Option.none_or, Option.bind_some]
      · rw [if_neg hother, if_neg hother, Option.none_or]

/-! ## Settings -/

/-- The listing with another value under a key. -/
def replaced (key : String) (value : Toml) (entries : List (String × Toml)) : List (String × Toml) :=
  entries.map fun e => if e.1 = key then (key, value) else e

/-- A setting reads what fits in place of its default, and puts it over what is listed under its key. -/
structure Lawful (setting : Setting R) (names : R → List (String × Toml)) (default : Toml) : Prop where
  exists_set_iff : ∀ {value : Toml}, value.Distinct → value.Layered default → ∀ record,
    (∃ record', setting.set record value = some record') ↔ value.Fits default
  writes : ∀ {value : Toml} {record record' : R}, value.Distinct → value.Layered default →
    setting.set record value = some record' → ∃ old new, (names record).lookup setting.key = some old ∧
      names record' = replaced setting.key new (names record) ∧
      ∀ path, new.leaf? path = (value.leaf? path).or (old.leaf? path)

/-- The settings of a record, with the keys and the defaults that its listing has. -/
def Spells (settings : List (Setting R)) (names : R → List (String × Toml))
    (defaults : List (String × Toml)) : Prop :=
  List.Forall₂ (fun setting e => setting.key = e.1 ∧ setting.Lawful names e.2) settings defaults

theorem lookup_replaced (key : String) (value : Toml) (entries : List (String × Toml))
    (other : String) : (replaced key value entries).lookup other =
      (entries.lookup other).map fun old => if other = key then value else old := by
  induction entries with
  | nil => rfl
  | cons e rest ih =>
    obtain ⟨name, old⟩ := e
    unfold replaced at ih ⊢
    rw [List.map_cons, Tag.lookup_cons_eq_ite]
    by_cases hname : name = key
    · rw [if_pos hname, Tag.lookup_cons_eq_ite, ih, ← hname]
      by_cases hother : other = name
      · rw [if_pos hother, if_pos hother, Option.map_some, if_pos hother]
      · rw [if_neg hother, if_neg hother]
    · rw [if_neg hname, Tag.lookup_cons_eq_ite, ih]
      by_cases hother : other = name
      · rw [if_pos hother, if_pos hother, Option.map_some, if_neg (hother ▸ hname)]
      · rw [if_neg hother, if_neg hother]

/-- A setting of values that are read and written, and are no tables, is lawful. -/
theorem lawful_of_leaf {α : Type} {setting : Setting R} {set : R → α → R} {read? : Toml → Option α}
    {write : α → Toml} (hset : ∀ record value, setting.set record value = set record <$> read? value)
    (hread : ∀ {value a}, read? value = some a ↔ value = write a)
    (hleaf : ∀ a, (write a).isTable = false)
    (hkind : ∀ {value a}, value.SameKind (write a) ↔ ∃ b, value = write b)
    (hlisted : ∀ record, ∃ a, (names record).lookup setting.key = some (write a))
    (hnames : ∀ record a, names (set record a) = replaced setting.key (write a) (names record))
    (a : α) : setting.Lawful names (write a) where
  exists_set_iff := by
    intro value _ _ record
    rw [fits_iff_of_isTable_eq_false (hleaf a), hkind, hset]
    constructor
    · rintro ⟨record', hvalue⟩
      obtain ⟨b, hb, -⟩ := Option.map_eq_some_iff.mp hvalue
      exact ⟨b, hread.mp hb⟩
    · rintro ⟨b, hb⟩
      exact ⟨set record b, Option.map_eq_some_iff.mpr ⟨b, hread.mpr hb, rfl⟩⟩
  writes := by
    intro value record record' _ _ hvalue
    rw [hset] at hvalue
    obtain ⟨b, hb, rfl⟩ := Option.map_eq_some_iff.mp hvalue
    obtain rfl := hread.mp hb
    obtain ⟨old, hold⟩ := hlisted record
    refine ⟨write old, write b, hold, hnames record b, fun path => ?_⟩
    cases path with
    | nil => rw [leaf?_nil_of_isTable_eq_false (hleaf b), Option.some_or]
    | cons key path =>
      rw [leaf?_cons_of_isTable_eq_false (hleaf b), leaf?_cons_of_isTable_eq_false (hleaf old),
        Option.none_or]

theorem lawful_text {get : R → String} {set : R → String → R}
    (hlisted : ∀ record, (names record).lookup key = some (.str (get record)))
    (hnames : ∀ record s, names (set record s) = replaced key (.str s) (names record)) (s : String) :
    (Setting.text key get set).Lawful names (.str s) :=
  lawful_of_leaf (fun _ _ => rfl) str?_eq_some_iff (fun _ => rfl) sameKind_str_iff
    (fun record => ⟨get record, hlisted record⟩) hnames s

theorem lawful_texts {get : R → List String} {set : R → List String → R}
    (hlisted : ∀ record, (names record).lookup key = some (.arr ((get record).map .str)))
    (hnames : ∀ record ss, names (set record ss) = replaced key (.arr (ss.map .str)) (names record))
    (ss : List String) : (Setting.texts key get set).Lawful names (.arr (ss.map .str)) :=
  lawful_of_leaf (fun _ _ => rfl) strs?_eq_some_iff
    (fun _ => rfl) sameKind_strs_iff (fun record => ⟨get record, hlisted record⟩) hnames ss

theorem takes_of_find?_eq_none (hfind : settings.find? (·.key = key) = none) :
    Takes settings names False key value where
  exists_take?_iff := by
    intro record
    rw [take?, hfind]
    exact ⟨nofun, nofun⟩
  leaf?_take? := by
    intro record record' htake
    rw [take?, hfind] at htake
    cases htake

/-- A lawful setting takes what fits in place of its default. -/
theorem Lawful.takes {setting : Setting R} (h : setting.Lawful names default)
    (hfind : settings.find? (·.key = setting.key) = some setting) (hdistinct : value.Distinct)
    (hlayered : value.Layered default) :
    Takes settings names (value.Fits default) setting.key value where
  exists_take?_iff := by
    intro record
    rw [take?, hfind, Option.bind_some, h.exists_set_iff hdistinct hlayered]
  leaf?_take? := by
    intro record record' htake other path
    rw [take?, hfind, Option.bind_some] at htake
    obtain ⟨old, new, hold, hnames, hleaf⟩ := h.writes hdistinct hlayered htake
    rw [leaf?_table_cons, leaf?_table_cons, hnames, lookup_replaced]
    by_cases hother : other = setting.key
    · rw [hother, hold, if_pos rfl, Option.map_some, if_pos rfl]
      exact hleaf path
    · rw [if_neg hother, Option.none_or]
      simp only [hother, if_false, Option.map_id']

/-! ## Records -/

/-- A key is listed, and a value fits what is listed under it. -/
def FitsUnder (defaults : List (String × Toml)) (key : String) (value : Toml) : Prop :=
  ∃ default, defaults.lookup key = some default ∧ value.Fits default

/-- A key that no setting has is not listed, and any other is that of a lawful setting. -/
theorem Spells.find? (h : Spells settings names defaults) (key : String) :
    (settings.find? (·.key = key) = none ∧ defaults.lookup key = none) ∨
      ∃ setting default, settings.find? (·.key = key) = some setting ∧
        defaults.lookup key = some default ∧ setting.key = key ∧ setting.Lawful names default := by
  induction h with
  | nil => exact .inl ⟨rfl, rfl⟩
  | @cons setting e settings defaults hfirst _ ih =>
    obtain ⟨name, default⟩ := e
    obtain ⟨hname, hlawful⟩ := hfirst
    rw [List.find?_cons, Tag.lookup_cons_eq_ite]
    by_cases hkey : setting.key = key
    · rw [if_pos (hkey ▸ hname)]
      exact .inr ⟨setting, default, by simp [hkey], rfl, hkey, hlawful⟩
    · rw [if_neg fun he => hkey (hname.trans he.symm)]
      simpa [hkey] using ih

/-- An entry is taken iff its key is listed and its value fits. -/
theorem Spells.takes (h : Spells settings names defaults) (hdistinct : value.Distinct)
    (hlayered : ∀ default, defaults.lookup key = some default → value.Layered default) :
    Takes settings names (FitsUnder defaults key value) key value := by
  rcases h.find? key with ⟨hfind, hlookup⟩ | ⟨setting, default, hfind, hlookup, rfl, hlawful⟩
  · refine (takes_of_find?_eq_none hfind).congr ?_
    rw [FitsUnder, hlookup]
    exact ⟨nofun, nofun⟩
  · refine (hlawful.takes hfind hdistinct (hlayered default hlookup)).congr ?_
    simp only [FitsUnder, hlookup, Option.some.injEq, exists_eq_left']

variable (h : Spells settings names defaults) (hdistinct : t.Distinct)
  (hlayered : t.Layered (.table defaults))
include h hdistinct hlayered

/-- The entries of a table are taken one by one. -/
theorem Spells.takes_entries (ht : t = .table entries) : ∀ e ∈ entries,
    Takes settings names (FitsUnder defaults e.1 e.2) e.1 e.2 := by
  subst ht
  obtain ⟨hnodup, hentries⟩ := distinct_table_iff.mp hdistinct
  intro e he
  refine h.takes (hentries e he) fun default hdefault => ?_
  exact layered_table_iff.mp hlayered e.1 e.2 default
    ((Tag.lookup_eq_some_iff_mem hnodup).mpr he) hdefault

/-- A table overlays a record iff it fits its listing. -/
theorem Spells.exists_overlay?_iff (record : R) :
    (∃ record', overlay? settings record t = some record') ↔ t.Fits (.table defaults) := by
  obtain ⟨entries, ht⟩ := hlayered.eq_table
  have htakes := h.takes_entries hdistinct hlayered ht
  subst ht
  rw [Setting.exists_overlay?_iff htakes, fits_table_iff]
  have hnodup := (distinct_table_iff.mp hdistinct).1
  simp only [Tag.lookup_eq_some_iff_mem hnodup]
  exact ⟨fun hall key t he => hall (key, t) he, fun hall e he => hall e.1 e.2 he⟩

/-- A table that overlays a record replaces what it gives, and nothing else. -/
theorem Spells.leaf?_overlay? (hrecord' : overlay? settings record t = some record')
    (path : List String) :
    (table (names record')).leaf? path = (t.leaf? path).or ((table (names record)).leaf? path) := by
  obtain ⟨entries, ht⟩ := hlayered.eq_table
  have htakes := h.takes_entries hdistinct hlayered ht
  subst ht
  exact Setting.leaf?_overlay? htakes (distinct_table_iff.mp hdistinct).1 hrecord' path

omit hdistinct hlayered

/-- A setting that is a record of its own is lawful. -/
theorem Spells.lawful_part {names' : S → List (String × Toml)} {get : S → R} {set : S → R → S}
    (hlisted : ∀ record, (names' record).lookup key = some (.table (names (get record))))
    (hnames : ∀ record part,
      names' (set record part) = replaced key (.table (names part)) (names' record)) :
    (Setting.part key settings get set).Lawful names' (.table defaults) where
  exists_set_iff := by
    intro value hdistinct hlayered record
    rw [← h.exists_overlay?_iff hdistinct hlayered (get record)]
    constructor
    · rintro ⟨record', hvalue⟩
      obtain ⟨part, hpart, -⟩ := Option.map_eq_some_iff.mp hvalue
      exact ⟨part, hpart⟩
    · rintro ⟨part, hpart⟩
      exact ⟨set record part, Option.map_eq_some_iff.mpr ⟨part, hpart, rfl⟩⟩
  writes := by
    intro value record record' hdistinct hlayered hvalue
    obtain ⟨part, hpart, rfl⟩ := Option.map_eq_some_iff.mp hvalue
    exact ⟨_, _, hlisted record, hnames record part, h.leaf?_overlay? hdistinct hlayered hpart⟩

end ApiDescription.Setting
