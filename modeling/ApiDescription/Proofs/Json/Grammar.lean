import ApiDescription.Json.Printer
import ApiDescription.Proofs.Form.Attributes
import ApiDescription.Text.Blank
import Mathlib.Data.List.Forall2

/-!
# What a JSON text spells

The grammar of JSON, as a relation between values and texts. Blanks may stand around every value and every
key, and a character of a string may stand for itself or behind a backslash, so a value has many
spellings. Numbers are integers in decimal digits, and characters beyond U+FFFF are never escaped; nothing
else is written here.

Results:
* `plain_arr_iff`, `plain_obj_iff`: which values the grammar covers.
* `spellsChar_escapeChar`, `spellsString_quote`: what is written for a string spells it.
* `spells_pretty`: the text of a value that is laid out over several lines spells the value.
-/

namespace ApiDescription.Json

/-! ## The grammar -/

/-- A text of blanks alone. -/
def IsBlank (text : List Char) : Prop :=
  ∀ c ∈ text, c ∈ [' ', '\t', '\n', '\r']

/-- The letters that stand for characters behind a backslash. -/
def shortEscapes : List (Char × Char) :=
  [('"', '"'), ('\\', '\\'), ('/', '/'), ('b', '\x08'), ('f', '\x0c'), ('n', '\n'), ('r', '\r'),
    ('t', '\t')]

/-- A text stands for a character of a string. -/
inductive SpellsChar : Char → List Char → Prop
  | itself {c : Char} (hquote : c ≠ '"') (hbackslash : c ≠ '\\') (hcontrol : 0x20 ≤ c.toNat) :
      SpellsChar c [c]
  | short {c letter : Char} (h : (letter, c) ∈ shortEscapes) : SpellsChar c ['\\', letter]
  /-- The code of the character in four hexadecimal digits. -/
  | code {c : Char} {digits : List Char} {values : List Nat}
      (hdigits : digits.map Text.hexValue? = values.map some) (hfour : values.length = 4)
      (hcode : values.foldl (fun code value => 16 * code + value) 0 = c.toNat) :
      SpellsChar c ('\\' :: 'u' :: digits)

/-- A text is a string in quotes. -/
def SpellsString (s : String) (text : List Char) : Prop :=
  ∃ parts, List.Forall₂ SpellsChar s.toList parts ∧ text = '"' :: parts.flatten ++ ['"']

/-- A text spells a value. -/
inductive Spells : Json → List Char → Prop
  | null : Spells .null "null".toList
  | bool (b : Bool) : Spells (.bool b) (if b then "true" else "false").toList
  | int (i : Int) : Spells (.int i) i.repr.toList
  | str {s : String} {text : List Char} (h : SpellsString s text) : Spells (.str s) text
  /-- The items with their texts, and the blanks before the end. -/
  | arr {entries : List (Json × List Char)} {blank : List Char} (hblank : IsBlank blank)
      (h : ∀ e ∈ entries, Spells e.1 e.2) :
      Spells (.arr (entries.map (·.1)))
        ('[' :: [','].intercalate (entries.map (·.2)) ++ blank ++ [']'])
  /-- The fields with the texts of their keys and values, and the blanks before the end. -/
  | obj {entries : List ((String × Json) × List Char × List Char)} {blank : List Char}
      (hblank : IsBlank blank) (hkeys : ∀ e ∈ entries, Spells (.str e.1.1) e.2.1)
      (h : ∀ e ∈ entries, Spells e.1.2 e.2.2) :
      Spells (.obj (entries.map (·.1)))
        ('\x7b' :: [','].intercalate (entries.map fun e => e.2.1 ++ ':' :: e.2.2) ++ blank ++ ['\x7d'])
  | blank {value : Json} {before text behind : List Char} (hbefore : IsBlank before)
      (hbehind : IsBlank behind) (h : Spells value text) :
      Spells value (before ++ text ++ behind)

/-- All numbers in a value are integers, and every part of it can be read. -/
def Plain (value : Json) : Prop :=
  ∀ part, Inside part value → part ≠ .unreadable ∧ ∀ literal, part ≠ .real literal

theorem plain_arr_iff {items : List Json} : (arr items).Plain ↔ ∀ item ∈ items, item.Plain := by
  constructor
  · intro h item hitem part hpart
    exact h part (.item hitem hpart)
  · intro h part hpart
    cases hpart with
    | here => exact ⟨nofun, nofun⟩
    | item hm hpart => exact h _ hm part hpart

theorem plain_obj_iff {fields : List (String × Json)} :
    (obj fields).Plain ↔ ∀ f ∈ fields, f.2.Plain := by
  constructor
  · intro h f hf part hpart
    exact h part (.field hf hpart)
  · intro h part hpart
    cases hpart with
    | here => exact ⟨nofun, nofun⟩
    | field hm hpart => exact h _ hm part hpart

/-! ## Blanks -/

theorem isBlank_nil : IsBlank [] :=
  nofun

theorem isBlank_space : IsBlank [' '] :=
  List.forall_mem_singleton.mpr List.mem_cons_self

theorem isBlank_lineStart (level : Nat) : IsBlank (lineStart level).toList := by
  rw [lineStart, String.toList_ofList]
  refine List.forall_mem_cons.mpr ⟨by decide, fun c hc => ?_⟩
  obtain rfl := List.eq_of_mem_replicate hc
  decide

/-! ## Strings -/

theorem hexValue?_hexDigit : ∀ n < 16, Text.hexValue? (hexDigit n) = some n := by
  decide

theorem spellsChar_escapeChar (c : Char) : SpellsChar c (escapeChar c) := by
  unfold escapeChar
  split
  · exact .short (by decide)
  · exact .short (by decide)
  · exact .short (by decide)
  · exact .short (by decide)
  · exact .short (by decide)
  · exact .short (by decide)
  · exact .short (by decide)
  · next hquote hbackslash _ _ _ _ _ =>
    split
    · next hcontrol =>
      have hhigh := hexValue?_hexDigit (c.toNat / 16) (by omega)
      have hlow := hexValue?_hexDigit (c.toNat % 16) (by omega)
      have hzero : Text.hexValue? '0' = some 0 := by decide
      have hdigits : ['0', '0', hexDigit (c.toNat / 16), hexDigit (c.toNat % 16)].map Text.hexValue? =
          [0, 0, c.toNat / 16, c.toNat % 16].map some := by
        simp only [List.map_cons, List.map_nil, hhigh, hlow, hzero]
      refine .code hdigits rfl ?_
      simp only [List.foldl_cons, List.foldl_nil]
      omega
    · next hcontrol => exact .itself hquote hbackslash (Nat.le_of_not_lt hcontrol)

theorem spellsString_quote (s : String) : SpellsString s (quote s).toList := by
  refine ⟨s.toList.map escapeChar, ?_, ?_⟩
  · rw [List.forall₂_map_right_iff]
    exact List.forall₂_same.mpr fun c _ => spellsChar_escapeChar c
  · rw [quote, String.toList_ofList, List.flatMap]

/-! ## Layout -/

theorem intercalate_cons {α : Type} (separator : α) (first : List α) (rest : List (List α)) :
    [separator].intercalate (first :: rest) = first ++ rest.flatMap (separator :: ·) := by
  induction rest generalizing first with
  | nil => simp
  | cons next rest ih => simp [List.intercalate_cons_cons, ih]

theorem toList_prettyItems (level : Nat) (items : List Json) :
    (prettyItems level items).toList =
      (items.map fun item => (lineStart level).toList ++ (item.prettyAt level).toList).flatMap
        (',' :: ·) := by
  induction items with
  | nil => rfl
  | cons item rest ih => simp [prettyItems, ih]

theorem toList_prettyFields (level : Nat) (fields : List (String × Json)) :
    (prettyFields level fields).toList =
      (fields.map fun f => (lineStart level).toList ++ (quote f.1).toList ++
        ':' :: ' ' :: (f.2.prettyAt level).toList).flatMap (',' :: ·) := by
  induction fields with
  | nil => rfl
  | cons f rest ih => simp [prettyFields, ih]

/-- A field with the texts that are written for its key and its value at a level. -/
def fieldAt (level : Nat) (f : String × Json) : (String × Json) × List Char × List Char :=
  (f, (lineStart level).toList ++ (quote f.1).toList, ' ' :: (f.2.prettyAt level).toList)

/-- What is written for a value at a level spells it. -/
theorem spells_prettyAt {value : Json} (h : value.Plain) (level : Nat) :
    Spells value (value.prettyAt level).toList := by
  induction value using nestedInduction generalizing level with
  | null => exact .null
  | bool b => cases b <;> exact .bool _
  | int i => exact .int i
  | real literal => exact absurd rfl ((h _ .here).2 literal)
  | str s => exact .str (spellsString_quote s)
  | unreadable => exact absurd rfl (h _ .here).1
  | arr items ih =>
    have hentries : ∀ e ∈ items.map fun item =>
        (item, (lineStart (level + 1)).toList ++ (item.prettyAt (level + 1)).toList),
        Spells e.1 e.2 := by
      refine List.forall_mem_map.mpr fun item hitem => ?_
      have hitem := ih item hitem (plain_arr_iff.mp h item hitem) (level + 1)
      simpa using hitem.blank (isBlank_lineStart (level + 1)) isBlank_nil
    cases items with
    | nil => simpa [prettyAt] using Spells.arr isBlank_nil hentries
    | cons item rest =>
      have hspells := Spells.arr (isBlank_lineStart level) hentries
      simpa [prettyAt, toList_prettyItems, intercalate_cons, Function.comp_def] using hspells
  | obj fields ih =>
    have hkeys : ∀ e ∈ fields.map (fieldAt (level + 1)), Spells (.str e.1.1) e.2.1 := by
      refine List.forall_mem_map.mpr fun f _ => ?_
      have hkey := Spells.str (spellsString_quote f.1)
      simpa [fieldAt] using hkey.blank (isBlank_lineStart (level + 1)) isBlank_nil
    have hvalues : ∀ e ∈ fields.map (fieldAt (level + 1)), Spells e.1.2 e.2.2 := by
      refine List.forall_mem_map.mpr fun f hf => ?_
      have hvalue := ih f hf (plain_obj_iff.mp h f hf) (level + 1)
      simpa [fieldAt] using hvalue.blank isBlank_space isBlank_nil
    cases fields with
    | nil => simpa [prettyAt] using Spells.obj isBlank_nil hkeys hvalues
    | cons f rest =>
      have hspells := Spells.obj (isBlank_lineStart level) hkeys hvalues
      simpa [prettyAt, toList_prettyFields, intercalate_cons, Function.comp_def, fieldAt] using hspells

/-- **What is written for a value spells it.** -/
theorem spells_pretty {value : Json} (h : value.Plain) : Spells value value.pretty.toList :=
  spells_prettyAt h 0

end ApiDescription.Json
