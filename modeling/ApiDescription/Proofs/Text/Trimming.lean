import ApiDescription.Text.Blank
import Mathlib.Data.List.Basic
import Mathlib.Data.List.TakeWhile

/-!
# Trimmed texts

Trimming takes blanks away from both ends of a text and nothing else. So what is left is known by two
things: the text is what is left with blanks around it, and no blank stands at an end of what is left.

Results:
* `takeWhile_dropWhile_eq_iff`: a text is cut in one way before its first character of a kind.
* `trimStart_eq_iff`, `trimEnd_eq_iff`: the same at one end.
* `trimChars_eq_iff`: a trimmed text is the one without blanks at its ends that has to be padded with
  blanks to give the text (`IsPadded`).
* `trimChars_eq_nil_iff`: nothing is left of blanks alone.
-/

namespace ApiDescription.Text

/-- Nothing but blanks. -/
def AllBlank (s : List Char) : Prop :=
  ∀ c ∈ s, isBlank c = true

/-- No blank stands at either end. -/
structure IsTrimmed (s : List Char) : Prop where
  head : ∀ c, s.head? = some c → isBlank c = false
  last : ∀ c, s.getLast? = some c → isBlank c = false

/-- A text is another one with blanks around it. -/
def IsPadded (s inner : List Char) : Prop :=
  ∃ lead trail, AllBlank lead ∧ AllBlank trail ∧ s = lead ++ inner ++ trail

variable {s t : List Char}

/-- A text without blanks is trimmed. -/
theorem isTrimmed_of_solid (h : ∀ c ∈ s, isBlank c = false) : IsTrimmed s :=
  ⟨fun c hc => h c (List.mem_of_mem_head? hc), fun c hc => h c (List.mem_of_mem_getLast? hc)⟩

theorem AllBlank.append (hs : AllBlank s) (ht : AllBlank t) : AllBlank (s ++ t) :=
  fun c hc => (List.mem_append.mp hc).elim (hs c) (ht c)

/-- A text is cut in one way before its first character of a kind. -/
theorem takeWhile_dropWhile_eq_iff {p : Char → Bool} {before behind : List Char} :
    s.takeWhile p = before ∧ s.dropWhile p = behind ↔ s = before ++ behind ∧
      (∀ c ∈ before, p c = true) ∧ ∀ c, behind.head? = some c → p c = false := by
  constructor
  · rintro ⟨rfl, rfl⟩
    refine ⟨List.takeWhile_append_dropWhile.symm, fun _ => List.mem_takeWhile_imp, fun c hc => ?_⟩
    have hhead := List.head?_dropWhile_not p s
    rwa [hc] at hhead
  · rintro ⟨rfl, hbefore, hbehind⟩
    rw [List.takeWhile_append_of_pos hbefore, List.dropWhile_append_of_pos hbefore]
    cases behind with
    | nil => simp
    | cons c behind => simp [hbehind c rfl]

theorem trimStart_eq_iff : trimStart s = t ↔
    (∀ c, t.head? = some c → isBlank c = false) ∧ ∃ lead, AllBlank lead ∧ s = lead ++ t := by
  have hcut : ∀ lead, s.takeWhile isBlank = lead ∧ trimStart s = t ↔ s = lead ++ t ∧
      AllBlank lead ∧ ∀ c, t.head? = some c → isBlank c = false :=
    fun _ => takeWhile_dropWhile_eq_iff
  constructor
  · intro h
    obtain ⟨heq, hblank, hhead⟩ := (hcut _).mp ⟨rfl, h⟩
    exact ⟨hhead, _, hblank, heq⟩
  · rintro ⟨hhead, lead, hblank, heq⟩
    exact ((hcut lead).mpr ⟨heq, hblank, hhead⟩).2

theorem trimEnd_eq_iff : trimEnd s = t ↔
    (∀ c, t.getLast? = some c → isBlank c = false) ∧ ∃ trail, AllBlank trail ∧ s = t ++ trail := by
  rw [trimEnd, List.reverse_eq_iff, trimStart_eq_iff, List.head?_reverse]
  refine and_congr_right fun _ => ⟨?_, ?_⟩
  · rintro ⟨lead, hlead, heq⟩
    refine ⟨lead.reverse, fun c hc => hlead c (List.mem_reverse.mp hc), ?_⟩
    rw [← List.reverse_reverse s, heq, List.reverse_append, List.reverse_reverse]
  · rintro ⟨trail, htrail, rfl⟩
    exact ⟨trail.reverse, fun c hc => htrail c (List.mem_reverse.mp hc), List.reverse_append⟩

/-- Nothing is left of blanks alone. -/
theorem trimChars_eq_nil_iff : trimChars s = [] ↔ AllBlank s := by
  have hstart : trimStart s = [] ↔ AllBlank s := List.dropWhile_eq_nil_iff
  rw [← hstart, trimChars, trimEnd_eq_iff]
  constructor
  · rintro ⟨-, trail, htrail, heq⟩
    -- what is trimmed at its start begins with no blank
    cases trail with
    | nil => exact heq
    | cons c trail =>
      have hc : isBlank c = false := head?_trimStart (s := s) (by rw [heq]; rfl)
      exact absurd (htrail c List.mem_cons_self) (by simp [hc])
  · intro h
    exact ⟨fun _ hc => by simp at hc, [], by simp [AllBlank], by simp [h]⟩

theorem isTrimmed_trimChars (s : List Char) : IsTrimmed (trimChars s) := by
  obtain ⟨hlast, trail, -, heq⟩ := (trimEnd_eq_iff (s := trimStart s) (t := trimChars s)).mp rfl
  refine ⟨fun c hc => head?_trimStart (s := s) ?_, hlast⟩
  rw [heq, List.head?_append, hc, Option.some_or]

theorem isPadded_trimChars (s : List Char) : IsPadded s (trimChars s) := by
  obtain ⟨-, lead, hlead, hs⟩ := (trimStart_eq_iff (s := s)).mp rfl
  obtain ⟨-, trail, htrail, ht⟩ := (trimEnd_eq_iff (s := trimStart s) (t := trimChars s)).mp rfl
  exact ⟨lead, trail, hlead, htrail, by rw [List.append_assoc, ← ht, ← hs]⟩

/-- **What trimming leaves of a text** has no blank at its ends, and the text is it with blanks around. -/
theorem trimChars_eq_iff : trimChars s = t ↔ IsTrimmed t ∧ IsPadded s t := by
  constructor
  · rintro rfl
    exact ⟨isTrimmed_trimChars s, isPadded_trimChars s⟩
  · rintro ⟨htrimmed, lead, trail, hlead, htrail, rfl⟩
    cases t with
    | nil => exact trimChars_eq_nil_iff.mpr (by simpa using hlead.append htrail)
    | cons c t =>
      have hstart : trimStart (lead ++ (c :: t) ++ trail) = c :: t ++ trail :=
        trimStart_eq_iff.mpr ⟨fun d hd => htrimmed.head d hd, lead, hlead, List.append_assoc _ _ _⟩
      rw [trimChars, hstart]
      exact trimEnd_eq_iff.mpr ⟨htrimmed.last, trail, htrail, rfl⟩

/-- The same of strings. -/
theorem trim_eq_iff {text inner : String} :
    trim text = inner ↔ IsTrimmed inner.toList ∧ IsPadded text.toList inner.toList := by
  rw [trim, ← trimChars_eq_iff, ← String.toList_inj, String.toList_ofList]

end ApiDescription.Text
