import ApiDescription.DocLine
import ApiDescription.Proofs.Text.Trimming

/-!
# The layout of documentation lines

A line is a key and a description with blanks before, between and behind them. The key has no blank, the
description has blanks inside only, and they do not touch. Every line has such a layout, and whatever the
layout, splitting the line gives its key and its description. So a line has one key and one description,
and the blanks inside a description stay as they are.

Results:
* `split_line`: splitting takes a layout apart.
* `exists_layout`: every line has a layout, whose key and description are those of the split.
* `fst_split_eq_empty_iff`: only a line of blanks has no key.
* `split_unique`: all of it together.
-/

namespace ApiDescription.DocLine

open Text

/-- A key and a description with the blanks before, between and behind them. -/
structure Layout where
  lead : String
  key : String
  gap : String
  description : String
  trail : String
  lead_blank : AllBlank lead.toList
  gap_blank : AllBlank gap.toList
  trail_blank : AllBlank trail.toList
  key_solid : ∀ c ∈ key.toList, isBlank c = false
  description_trimmed : IsTrimmed description.toList
  /-- A description has a key before it, and does not touch it. -/
  separated : description ≠ "" → key ≠ "" ∧ gap ≠ ""

/-- The line of a layout. -/
def Layout.line (l : Layout) : String :=
  l.lead ++ l.key ++ l.gap ++ l.description ++ l.trail

variable {line key description : String}

/-- A line splits into a key and a description iff these are the two parts of what trimming leaves. -/
theorem split_eq_iff : split line = (key, description) ↔
    (trimChars line.toList).takeWhile (!isBlank ·) = key.toList ∧
      trimStart ((trimChars line.toList).dropWhile (!isBlank ·)) = description.toList := by
  rw [split, Prod.mk.injEq, ← String.toList_inj, ← String.toList_inj, String.toList_ofList,
    String.toList_ofList]

/-! ## From the layout to its parts -/

namespace Layout

variable (l : Layout)

theorem toList_line : l.line.toList = l.lead.toList ++ l.key.toList ++ l.gap.toList ++
    l.description.toList ++ l.trail.toList := by
  simp only [line, String.toList_append]

/-- Without a description, the line is the key with blanks around it. -/
theorem trimChars_line_of_empty (h : l.description = "") :
    trimChars l.line.toList = l.key.toList := by
  refine trimChars_eq_iff.mpr ⟨isTrimmed_of_solid l.key_solid, l.lead.toList,
    l.gap.toList ++ l.trail.toList, l.lead_blank, l.gap_blank.append l.trail_blank, ?_⟩
  rw [toList_line, h, String.toList_empty, List.append_nil, List.append_assoc _ l.gap.toList]

/-- With a description, the line is the key, the gap and the description with blanks around them. -/
theorem trimChars_line_of_ne (h : l.description ≠ "") :
    trimChars l.line.toList = l.key.toList ++ (l.gap.toList ++ l.description.toList) := by
  have hkey : l.key.toList ≠ [] := by simpa using (l.separated h).1
  have hdescription : l.description.toList ≠ [] := by simpa using h
  refine trimChars_eq_iff.mpr ⟨⟨fun c hc => ?_, fun c hc => ?_⟩, l.lead.toList, l.trail.toList,
    l.lead_blank, l.trail_blank, ?_⟩
  · rw [List.head?_append_of_ne_nil _ hkey] at hc
    exact l.key_solid c (List.mem_of_mem_head? hc)
  · rw [← List.append_assoc, List.getLast?_append_of_ne_nil _ hdescription] at hc
    exact l.description_trimmed.last c hc
  · simp only [toList_line, List.append_assoc]

/-- **Splitting takes a layout apart.** -/
theorem split_line : split l.line = (l.key, l.description) := by
  rw [split_eq_iff]
  have hsolid : ∀ c ∈ l.key.toList, (!isBlank c) = true := fun c hc => by simp [l.key_solid c hc]
  by_cases h : l.description = ""
  · obtain ⟨hkey, hrest⟩ := takeWhile_dropWhile_eq_iff.mpr
      ⟨(List.append_nil l.key.toList).symm, hsolid, fun c hc => by simp at hc⟩
    rw [l.trimChars_line_of_empty h, hkey, hrest, h]
    exact ⟨rfl, rfl⟩
  · have hgap : l.gap.toList ≠ [] := by simpa using (l.separated h).2
    obtain ⟨hkey, hrest⟩ := takeWhile_dropWhile_eq_iff.mpr ⟨l.trimChars_line_of_ne h, hsolid, by
      intro c hc
      rw [List.head?_append_of_ne_nil _ hgap] at hc
      simp [l.gap_blank c (List.mem_of_mem_head? hc)]⟩
    rw [hkey, hrest]
    exact ⟨rfl, trimStart_eq_iff.mpr ⟨l.description_trimmed.head, _, l.gap_blank, rfl⟩⟩

end Layout

/-! ## From a line to its layout -/

/-- Every line has a layout, and its key and its description are those of the split. -/
theorem exists_layout (h : split line = (key, description)) :
    ∃ l : Layout, l.line = line ∧ l.key = key ∧ l.description = description := by
  obtain ⟨hkey, hdescription⟩ := split_eq_iff.mp h
  obtain ⟨hinner, hsolid, hstop⟩ := takeWhile_dropWhile_eq_iff.mp ⟨hkey, rfl⟩
  obtain ⟨hhead, gap, hgap, hrest⟩ := trimStart_eq_iff.mp hdescription
  obtain ⟨htrimmed, lead, trail, hlead, htrail, hline⟩ :=
    trimChars_eq_iff.mp (rfl : trimChars line.toList = _)
  rw [hrest] at hinner hstop
  rw [hinner] at htrimmed hline
  refine ⟨{
    lead := .ofList lead
    key
    gap := .ofList gap
    description
    trail := .ofList trail
    lead_blank := by rwa [String.toList_ofList]
    gap_blank := by rwa [String.toList_ofList]
    trail_blank := by rwa [String.toList_ofList]
    key_solid := fun c hc => by simpa using hsolid c hc
    description_trimmed := ⟨hhead, fun c hc => htrimmed.last c ?_⟩
    separated := fun hne => ?_ }, ?_, rfl, rfl⟩
  · rw [← List.append_assoc, List.getLast?_append, hc, Option.some_or]
  · -- the text behind the key begins with a blank, the trimmed line and the description do not
    have hne' : description.toList ≠ [] := by simpa using hne
    obtain ⟨c, hc⟩ := Option.ne_none_iff_exists'.mp
      (mt List.head?_eq_none_iff.mp (List.append_ne_nil_of_right_ne_nil gap hne'))
    have hblank : isBlank c = true := by simpa using hstop c hc
    refine ⟨fun hempty => ?_, fun hempty => ?_⟩
    · rw [hempty] at htrimmed
      exact absurd hblank (by simp [htrimmed.head c hc])
    · rw [String.ofList_eq_empty_iff.mp hempty] at hc
      exact absurd hblank (by simp [hhead c hc])
  · rw [← String.toList_inj, hline]
    simp [Layout.line]

/-- Only a line of blanks has no key. -/
theorem fst_split_eq_empty_iff : (split line).1 = "" ↔ AllBlank line.toList := by
  rw [← trimChars_eq_nil_iff, split, String.ofList_eq_empty_iff]
  constructor
  · intro h
    cases hs : trimChars line.toList with
    | nil => rfl
    | cons c s =>
      have hc : isBlank c = false := (isTrimmed_trimChars line.toList).head c (by rw [hs]; rfl)
      simp [hs, hc] at h
  · intro h
    rw [h, List.takeWhile_nil]

/-- **A line has one key and one description.** They are those of any layout of the line, there is one,
and the key is empty in a line of blanks only. -/
theorem split_unique (line : String) :
    (∀ key description, split line = (key, description) ↔
      ∃ l : Layout, l.line = line ∧ l.key = key ∧ l.description = description) ∧
    ((split line).1 = "" ↔ AllBlank line.toList) := by
  refine ⟨fun key description => ⟨exists_layout, ?_⟩, fst_split_eq_empty_iff⟩
  rintro ⟨l, rfl, rfl, rfl⟩
  exact l.split_line

/-- An ideographic space before the key, a tab and a no-break space behind it, and a line separator at the
end are no part of the description; the two spaces inside are. -/
example : split "\u3000X-Id\t\u00a0the  id\u2028" = ("X-Id", "the  id") := by decide

end ApiDescription.DocLine
