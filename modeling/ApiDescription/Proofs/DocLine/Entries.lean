import ApiDescription.Proofs.DocLine.Splitting
import ApiDescription.Proofs.Metadata.Codes
import ApiDescription.Proofs.Selections

/-!
# The entries of a documentation tag

The lines of a tag give entries one by one, in their order. A line that gives none is passed over, and the
lines around it do not notice. Under a name every line counts that is not blank. Under a code a line counts
if its key is a number of sixteen bits in ASCII digits, with leading zeros and one plus sign at most.

Results:
* `named_eq`: the entries by name are the splits of the lines that are not blank.
* `givesEntry_iff`, `selects_coded_iff`: the entries by code are those of the lines that give one
  (`GivesEntry`).
* `readCode?_repr`: a line of a code in decimal digits, a space and a text gives that code and that text.
* `entries_of_lines`: all of it together.
-/

namespace ApiDescription.DocLine

open Text

/-- A line gives a code and a description: its key is a number of sixteen bits in ASCII digits, with a plus
sign before them or without. -/
inductive GivesEntry : String → UInt16 × String → Prop
  | intro (l : Layout) {sign digits : List Char} {code : UInt16}
      (hkey : l.key.toList = sign ++ digits) (hsign : sign = [] ∨ sign = ['+'])
      (hne : digits ≠ []) (hdigits : ∀ c ∈ digits, c.isDigit = true)
      (hvalue : Nat.ofDigitChars 10 digits 0 = code.toNat) :
      GivesEntry l.line (code, l.description)

/-- The lines of a tag; none if the tag never appears. -/
def linesOf (docs : DocTags) (tag : String) : List String :=
  (docs.get? tag).getD []

variable {docs : DocTags} {tag line : String} {entries : List (UInt16 × String)}

/-! ## Names -/

/-- The entries by name are the splits of the lines that are not blank. -/
theorem named_eq :
    named docs tag = ((linesOf docs tag).filter fun line => !line.toList.all isBlank).map split := by
  rw [named, linesOf, List.filter_map]
  refine congrArg _ (List.filter_congr fun line _ => ?_)
  rw [Function.comp_apply, Bool.eq_iff_iff, decide_eq_true_eq, Bool.not_eq_true', ← Bool.not_eq_true,
    List.all_eq_true]
  exact not_congr fst_split_eq_empty_iff

/-! ## Codes -/

/-- A line gives the code that its key denotes, with its description. -/
theorem givesEntry_iff {e : UInt16 × String} :
    GivesEntry line e ↔ Denotes (split line).1 e.1 ∧ (split line).2 = e.2 := by
  constructor
  · rintro ⟨l, hkey, rfl | rfl, hne, hdigits, hvalue⟩
    · rw [l.split_line]
      exact ⟨⟨_, hne, hdigits, .inl hkey, hvalue⟩, rfl⟩
    · rw [l.split_line]
      exact ⟨⟨_, hne, hdigits, .inr hkey, hvalue⟩, rfl⟩
  · obtain ⟨code, description⟩ := e
    rintro ⟨⟨digits, hne, hdigits, hkey, hvalue⟩, rfl⟩
    obtain ⟨l, rfl, -, -⟩ := exists_layout (rfl : split line = ((split line).1, (split line).2))
    rw [l.split_line] at hkey ⊢
    rcases hkey with hkey | hkey
    · exact .intro l (show l.key.toList = [] ++ digits from hkey) (.inl rfl) hne hdigits hvalue
    · exact .intro l (show l.key.toList = ['+'] ++ digits from hkey) (.inr rfl) hne hdigits hvalue

/-- The code and the description of a line, if its key denotes a code. -/
def readCode? (line : String) : Option (UInt16 × String) :=
  (code? (split line).1).map (·, (split line).2)

theorem readCode?_eq_some_iff {e : UInt16 × String} : readCode? line = some e ↔ GivesEntry line e := by
  obtain ⟨code, description⟩ := e
  rw [givesEntry_iff, readCode?, Option.map_eq_some_iff]
  simp only [Prod.mk.injEq, code?_eq_some_iff]
  constructor
  · rintro ⟨_, hcode, rfl, hdescription⟩
    exact ⟨hcode, hdescription⟩
  · rintro ⟨hcode, hdescription⟩
    exact ⟨code, hcode, rfl, hdescription⟩

theorem coded_eq : coded docs tag = (linesOf docs tag).filterMap readCode? :=
  rfl

/-- The entries by code are those of the lines that give one. -/
theorem selects_coded_iff :
    coded docs tag = entries ↔ Selects GivesEntry (linesOf docs tag) entries := by
  rw [coded_eq]
  exact (selects_iff fun _ _ => readCode?_eq_some_iff).symm

/-! ## Lines as they are written -/

/-- A digit is no blank. -/
theorem isBlank_of_isDigit {c : Char} (h : c.isDigit = true) : isBlank c = false := by
  have hrange : 0x30 ≤ c.toNat ∧ c.toNat ≤ 0x39 := by
    simpa [Char.isDigit, UInt32.le_iff_toNat_le] using h
  simp [isBlank]
  omega

/-- A key, a space and a text split into the key and the trimmed text. -/
theorem split_append_space {key : String} (hne : key ≠ "")
    (hsolid : ∀ c ∈ key.toList, isBlank c = false) (text : String) :
    split (key ++ " " ++ text) = (key, trim text) := by
  obtain ⟨htrimmed, lead, trail, hlead, htrail, htext⟩ := trim_eq_iff.mp (rfl : trim text = trim text)
  let l : Layout := {
    lead := ""
    key
    gap := " " ++ .ofList lead
    description := trim text
    trail := .ofList trail
    lead_blank := by simp [AllBlank]
    gap_blank := by
      rw [String.toList_append, String.toList_ofList (l := lead)]
      exact AllBlank.append (by simp [AllBlank, isBlank]) hlead
    trail_blank := by rwa [String.toList_ofList]
    key_solid := hsolid
    description_trimmed := htrimmed
    separated := fun _ => ⟨hne, by simp⟩ }
  have hline : key ++ " " ++ text = l.line := by
    rw [← String.toList_inj, l.toList_line]
    simp [l, htext]
  rw [hline, l.split_line]

/-- The decimal digits of a code denote it. -/
theorem denotes_repr (code : UInt16) : Denotes (toString code.toNat) code := by
  refine ⟨Nat.toDigits 10 code.toNat, Nat.toDigits_ne_nil, fun c hc => ?_, .inl Nat.toList_repr, ?_⟩
  · exact Nat.isDigit_of_mem_toDigits (by decide) (by decide) hc
  · exact Nat.ofDigitChars_toDigits (by decide) (by decide)

/-- A line of a code in decimal digits, a space and a text gives that code and that text. -/
theorem readCode?_repr (code : UInt16) (text : String) :
    readCode? (toString code.toNat ++ " " ++ text) = some (code, trim text) := by
  have hdigits : ∀ c ∈ (toString code.toNat).toList, isBlank c = false := fun c hc => by
    rw [Nat.toString_eq_repr, Nat.toList_repr] at hc
    exact isBlank_of_isDigit (Nat.isDigit_of_mem_toDigits (by decide) (by decide) hc)
  have hne : toString code.toNat ≠ "" := by
    rw [Nat.toString_eq_repr, ← String.toList_inj.ne, Nat.toList_repr]
    exact Nat.toDigits_ne_nil
  rw [readCode?, split_append_space hne hdigits, code?_eq_some_iff.mpr (denotes_repr code), Option.map_some]

/-- **The entries of a documentation tag.** By name they are the splits of the lines that are not blank. By
code they are those of the lines that give one, each where its line stands, and a line made of a code, a
space and a text gives that code with that text. -/
theorem entries_of_lines (docs : DocTags) (tag : String) :
    named docs tag = ((linesOf docs tag).filter fun line => !line.toList.all isBlank).map split ∧
    (∀ entries, coded docs tag = entries ↔ Selects GivesEntry (linesOf docs tag) entries) ∧
    ∀ (code : UInt16) (text : String),
      coded (docs.push tag (toString code.toNat ++ " " ++ text)) tag =
        coded docs tag ++ [(code, trim text)] := by
  refine ⟨named_eq, fun _ => selects_coded_iff, fun code text => ?_⟩
  rw [coded_eq, coded_eq, linesOf, DocTags.get?_push, if_pos rfl, Option.getD_some, List.filterMap_append,
    linesOf, List.filterMap_cons_some (readCode?_repr code text), List.filterMap_nil]

/-- A plus sign and leading zeros do not change the code, and seventeen bits are no code. -/
example : readCode? "+0404 not found" = some (404, "not found") ∧ readCode? "65536 none" = none := by
  decide

end ApiDescription.DocLine
