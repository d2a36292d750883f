import ApiDescription.Proofs.Route.Scanning

/-!
# Templates and the names that are read back

A template is written as literal texts and placeholders, each a name with a pattern behind a colon or
without one. A pattern may hold braces in pairs and slashes, and a scan that knows no patterns stumbles over
both: a slash before the first closing brace hides the placeholder, and what braces enclose behind the first
cut is taken for a placeholder of its own. Nothing else goes wrong, whatever stands around.

Results:
* `closing_of_balanced`: in a text with balanced braces an opening brace has a closing one behind it.
* `mem_placeholderTexts_render_iff`, `mem_placeholderNames_render_iff`: what the scan finds in a template
  (`Placeholder.Yields`, `Placeholder.StrayName`).
* `isFaithful_of_plain`: patterns without a slash and with one closing brace at most do no harm.
* `names_read_back_iff`: the names that are read back are those that were written iff the patterns are
  faithful (`IsFaithful`).
-/

namespace ApiDescription.Route

open Text

/-! ## Templates -/

/-- Braces are balanced in a text behind which some of them have to be closed. -/
def balanced : Nat → List Char → Bool
  | depth, [] => depth = 0
  | depth, c :: s =>
    if c = '\x7b' then balanced (depth + 1) s
    else if c = '\x7d' then 0 < depth && balanced (depth - 1) s
    else balanced depth s

/-- A placeholder as it is written. -/
structure Placeholder where
  /-- The name, perhaps with blanks around it. -/
  name : String
  pattern? : Option String := none
  named : trim name ≠ ""
  plain : ∀ c ∈ name.toList, c ≠ ':' ∧ c ≠ '/' ∧ c ≠ '\x7b' ∧ c ≠ '\x7d'
  balanced : ∀ pattern ∈ pattern?, Route.balanced 0 pattern.toList = true

/-- A part of a template. -/
inductive Segment where
  | literal (text : String) (plain : ∀ c ∈ text.toList, c ≠ '\x7b' ∧ c ≠ '\x7d')
  | placeholder (p : Placeholder)

namespace Placeholder

/-- The name without blanks around it. -/
def key (p : Placeholder) : String :=
  trim p.name

/-- The pattern; empty if there is none. -/
def pattern (p : Placeholder) : List Char :=
  (p.pattern?.map String.toList).getD []

/-- A placeholder without the braces around it. -/
def text (p : Placeholder) : List Char :=
  match p.pattern? with
  | none => p.name.toList
  | some pattern => p.name.toList ++ ':' :: pattern.toList

/-- What stands before the pattern. -/
def front (p : Placeholder) : List Char :=
  p.name.toList ++ if p.pattern?.isSome then [':'] else []

/-- No slash stands before the first closing brace of the pattern. -/
def IsRead (p : Placeholder) : Prop :=
  '/' ∉ p.pattern.takeWhile (· ≠ '\x7d')

/-- A text is enclosed in the pattern behind its first cut. -/
def Strays (p : Placeholder) (text : List Char) : Prop :=
  ∃ piece ∈ (pieces p.pattern).tail, Encloses piece text

/-- A text is found where the placeholder stands. -/
def Yields (p : Placeholder) (text : List Char) : Prop :=
  (p.IsRead ∧ text = p.front ++ p.pattern.takeWhile (· ≠ '\x7d')) ∨ p.Strays text

/-- A name is read in the pattern behind its first cut. -/
def StrayName (p : Placeholder) (name : String) : Prop :=
  name ≠ "" ∧ ∃ text, p.Strays text ∧ IsNameOf name text

end Placeholder

/-- The text of a part of a template. -/
def Segment.text : Segment → List Char
  | .literal text _ => text.toList
  | .placeholder p => '\x7b' :: (p.text ++ ['\x7d'])

/-- The template that is made of some parts. -/
def render (segments : List Segment) : String :=
  .ofList (segments.flatMap Segment.text)

/-- The placeholders of a template. -/
def written (segments : List Segment) : List Placeholder :=
  segments.filterMap fun
    | .literal _ _ => none
    | .placeholder p => some p

variable {depth : Nat} {c : Char} {s t head pattern rest text : List Char} {name : String}
  {segments : List Segment}

/-! ## Balanced braces -/

theorem mem_brace_of_balanced_succ (h : balanced (depth + 1) s = true) : '\x7d' ∈ s := by
  induction s generalizing depth with
  | nil => simp [balanced] at h
  | cons c s ih =>
    rw [balanced] at h
    split_ifs at h with hopen hclose
    · exact List.mem_cons_of_mem c (ih h)
    · exact hclose ▸ List.mem_cons_self
    · exact List.mem_cons_of_mem c (ih h)

/-- What stands at the end of a balanced text closes the braces that are open before it. -/
theorem exists_balanced_of_suffix (h : balanced depth s = true) (ht : t <:+ s) :
    ∃ depth, balanced depth t = true := by
  induction s generalizing depth with
  | nil => exact ⟨depth, by rwa [List.suffix_nil.mp ht]⟩
  | cons c s ih =>
    rcases List.suffix_cons_iff.mp ht with rfl | hs
    · exact ⟨depth, h⟩
    · rw [balanced] at h
      split_ifs at h with hopen hclose
      · exact ih h hs
      · exact ih (Bool.and_eq_true_iff.mp h).2 hs
      · exact ih h hs

/-- Every opening brace has a closing one behind it. -/
def Closing (s : List Char) : Prop :=
  ∀ t, '\x7b' :: t <:+ s → '\x7d' ∈ t

theorem closing_of_balanced (h : balanced 0 s = true) : Closing s := by
  intro t ht
  obtain ⟨depth, hdepth⟩ := exists_balanced_of_suffix h ht
  rw [balanced, if_pos rfl] at hdepth
  exact mem_brace_of_balanced_succ hdepth

theorem Closing.of_suffix (h : Closing s) (ht : t <:+ s) : Closing t :=
  fun _ hu => h _ (hu.trans ht)

/-- In a text without cuts no brace is opened that has to be closed. -/
theorem Closing.not_mem_of_uncut (h : Closing s) (hs : Uncut s) : '\x7b' ∉ s := by
  intro hmem
  obtain ⟨before, t, rfl⟩ := List.append_of_mem hmem
  have hclose : '\x7d' ∈ t := h t (List.suffix_append before _)
  exact absurd (hs '\x7d' (by simp [hclose])) (by decide)

/-! ## Scanning -/

/-- The scan passes over a text without opening braces. -/
theorem placeholderTexts_append (hs : '\x7b' ∉ s) (rest : List Char) :
    placeholderTexts (s ++ rest) = placeholderTexts rest := by
  induction s with
  | nil => rfl
  | cons c s ih =>
    obtain ⟨hc, hs⟩ := not_or.mp (mt List.mem_cons.mpr hs)
    rw [List.cons_append, placeholderTexts_cons_of_ne (Ne.symm hc), ih hs]

/-- A closing brace behind a text that needs none ends the scan of the text. -/
theorem mem_placeholderTexts_append_brace (hs : Closing s) :
    text ∈ placeholderTexts (s ++ '\x7d' :: rest) ↔
      text ∈ placeholderTexts s ∨ text ∈ placeholderTexts rest := by
  induction s using pieces_induction with
  | uncut p hp =>
    have hno : ¬ Encloses (p ++ ['\x7d']) text := by
      rintro ⟨-, before, -, heq⟩
      have hmem : '\x7b' ∈ p ++ ['\x7d'] := by simp [heq]
      exact hs.not_mem_of_uncut hp (by simpa using hmem)
    rw [mem_placeholderTexts_append_cons hp (by decide), placeholderTexts_of_uncut hp,
      or_iff_right hno, or_iff_right List.not_mem_nil]
  | cut p d q hp hd ih =>
    rw [List.append_assoc, List.cons_append, mem_placeholderTexts_append_cons hp hd,
      mem_placeholderTexts_append_cons hp hd, ih (hs.of_suffix ?_), or_assoc]
    exact ⟨p ++ [d], by simp⟩

/-- A piece that begins with a placeholder encloses all of it that stands before the cut. -/
theorem encloses_front_iff (hhead : head ≠ []) :
    Encloses ('\x7b' :: (head ++ s ++ [c])) text ↔ c = '\x7d' ∧ text = head ++ s := by
  rw [encloses_brace_iff]
  constructor
  · rintro ⟨-, heq⟩
    obtain ⟨htext, hc⟩ := List.append_inj' heq rfl
    exact ⟨List.singleton_inj.mp hc, htext.symm⟩
  · rintro ⟨rfl, rfl⟩
    exact ⟨by simp [hhead], rfl⟩

theorem Uncut.ne_brace (hs : Uncut s) : ∀ e ∈ s, decide (e ≠ '\x7d') = true :=
  fun e he => decide_eq_true fun h => absurd (hs e he) (by rw [h]; decide)

theorem Uncut.slash_not_mem (hs : Uncut s) : '/' ∉ s :=
  fun h => absurd (hs '/' h) (by decide)

/-- Up to its first closing brace a pattern has no slash iff its first cut is behind that brace. -/
theorem takeWhile_append_cons_iff (hs : Uncut s) (hc : isCut c = true) :
    ('/' ∉ (s ++ c :: t).takeWhile (· ≠ '\x7d') ∧
      text = head ++ (s ++ c :: t).takeWhile (· ≠ '\x7d')) ↔ c = '\x7d' ∧ text = head ++ s := by
  rw [List.takeWhile_append_of_pos hs.ne_brace]
  rcases isCut_iff.mp hc with rfl | rfl
  · simp [hs.slash_not_mem]
  · simp

/-- What is found from the opening brace of a placeholder on. -/
theorem mem_placeholderTexts_placeholder (hhead : Uncut head) (hne : head ≠ [])
    (hpattern : Closing pattern) :
    text ∈ placeholderTexts ('\x7b' :: (head ++ pattern ++ '\x7d' :: rest)) ↔
      (('/' ∉ pattern.takeWhile (· ≠ '\x7d') ∧ text = head ++ pattern.takeWhile (· ≠ '\x7d')) ∨
        ∃ piece ∈ (pieces pattern).tail, Encloses piece text) ∨ text ∈ placeholderTexts rest := by
  have hopened : ∀ {p}, Uncut p → Uncut ('\x7b' :: (head ++ p)) := by
    intro p hp
    refine Uncut.cons_iff.mpr ⟨by decide, fun c hc => ?_⟩
    exact (List.mem_append.mp hc).elim (hhead c) (hp c)
  induction pattern using pieces_induction with
  | uncut p hp =>
    have htail : ¬ ∃ piece ∈ (pieces p).tail, Encloses piece text := by
      rintro ⟨piece, hpiece, h⟩
      exact not_encloses_of_mem_pieces hp (List.mem_of_mem_tail hpiece) h
    have happend : '\x7b' :: (head ++ p ++ '\x7d' :: rest) =
        '\x7b' :: (head ++ p) ++ '\x7d' :: rest := by simp
    rw [happend, mem_placeholderTexts_append_cons (hopened hp) (by decide), List.cons_append,
      encloses_front_iff hne, List.takeWhile_eq_self_iff.mpr hp.ne_brace, or_iff_left htail,
      and_iff_right rfl, and_iff_right hp.slash_not_mem]
  | cut p d q hp hd _ =>
    have happend : '\x7b' :: (head ++ (p ++ d :: q) ++ '\x7d' :: rest) =
        '\x7b' :: (head ++ p) ++ d :: (q ++ '\x7d' :: rest) := by simp
    have hq : Closing q := hpattern.of_suffix ⟨p ++ [d], by simp⟩
    rw [happend, mem_placeholderTexts_append_cons (hopened hp) hd, List.cons_append,
      encloses_front_iff hne, mem_placeholderTexts_append_brace hq, mem_placeholderTexts_iff (s := q),
      takeWhile_append_cons_iff hp hd, pieces_append_cons hp hd, List.tail_cons, or_assoc]

/-! ## Placeholders in a template -/

namespace Placeholder

variable (p : Placeholder)

theorem text_eq : p.text = p.front ++ p.pattern := by
  unfold text front pattern
  cases p.pattern? <;> simp

theorem front_ne_nil : p.front ≠ [] := by
  have hname : p.name ≠ "" := by
    intro h
    exact p.named (by rw [h]; decide)
  simp [front, hname]

theorem uncut_front : Uncut p.front := by
  intro c hc
  rcases List.mem_append.mp hc with hc | hc
  · obtain ⟨-, hslash, -, hclose⟩ := p.plain c hc
    simp [isCut, hslash, hclose]
  · have hcolon : c = ':' := by
      split_ifs at hc
      · exact List.mem_singleton.mp hc
      · exact absurd hc List.not_mem_nil
    rw [hcolon]
    decide

theorem closing_pattern : Closing p.pattern := by
  unfold pattern
  cases h : p.pattern? with
  | none => exact closing_of_balanced rfl
  | some pattern => exact closing_of_balanced (p.balanced pattern h)

/-- Whatever is read of its pattern, a placeholder has its own name. -/
theorem placeholderName_front :
    placeholderName (p.front ++ p.pattern.takeWhile (· ≠ '\x7d')) = p.key := by
  have hname : ∀ c ∈ p.name.toList, decide (c ≠ ':') = true :=
    fun c hc => decide_eq_true (p.plain c hc).1
  rw [placeholderName, front, List.append_assoc, List.takeWhile_append_of_pos hname, pattern]
  cases p.pattern? <;> simp [key, trim]

end Placeholder

/-- What is found in a template is what its placeholders yield. -/
theorem mem_placeholderTexts_render_iff :
    text ∈ placeholderTexts (render segments).toList ↔ ∃ p ∈ written segments, p.Yields text := by
  rw [render, String.toList_ofList]
  induction segments with
  | nil => simp [placeholderTexts, written]
  | cons segment segments ih =>
    rw [List.flatMap_cons]
    cases segment with
    | literal s hs =>
      rw [Segment.text, placeholderTexts_append fun h => (hs _ h).1 rfl, ih]
      rfl
    | placeholder p =>
      have happend : Segment.text (.placeholder p) ++ segments.flatMap Segment.text =
          '\x7b' :: (p.front ++ p.pattern ++ '\x7d' :: segments.flatMap Segment.text) := by
        simp [Segment.text, p.text_eq]
      have hwritten : written (.placeholder p :: segments) = p :: written segments := rfl
      rw [happend, mem_placeholderTexts_placeholder p.uncut_front p.front_ne_nil p.closing_pattern, ih,
        hwritten, List.exists_mem_cons_iff]
      rfl

/-- The names found in a template are those of the placeholders that are read, and the stray ones. -/
theorem mem_placeholderNames_render_iff : name ∈ placeholderNames (render segments) ↔
    ∃ p ∈ written segments, p.IsRead ∧ p.key = name ∨ p.StrayName name := by
  rw [placeholderNames, List.mem_filter, List.mem_map, decide_eq_true_eq]
  simp only [mem_placeholderTexts_render_iff]
  constructor
  · rintro ⟨⟨text, ⟨p, hp, ⟨hread, rfl⟩ | hstray⟩, hname⟩, hne⟩
    · rw [p.placeholderName_front] at hname
      exact ⟨p, hp, .inl ⟨hread, hname⟩⟩
    · exact ⟨p, hp, .inr ⟨hne, text, hstray, placeholderName_eq_iff.mp hname⟩⟩
  · rintro ⟨p, hp, ⟨hread, rfl⟩ | ⟨hne, text, hstray, hname⟩⟩
    · exact ⟨⟨_, ⟨p, hp, .inl ⟨hread, rfl⟩⟩, p.placeholderName_front⟩, p.named⟩
    · exact ⟨⟨text, ⟨p, hp, .inr hstray⟩, placeholderName_eq_iff.mpr hname⟩, hne⟩

/-! ## Names that are read back -/

/-- Patterns hide no name and add none. -/
structure IsFaithful (segments : List Segment) : Prop where
  /-- A name that is not read where it stands is found elsewhere. -/
  found : ∀ p ∈ written segments, ∃ q ∈ written segments,
    q.IsRead ∧ q.key = p.key ∨ q.StrayName p.key
  /-- A stray name is one of the names that were written. -/
  known : ∀ p ∈ written segments, ∀ name, p.StrayName name → ∃ q ∈ written segments, q.key = name

/-- In a text without slashes and with one closing brace at most nothing is enclosed behind the first cut. -/
theorem not_encloses_of_mem_tail {piece : List Char} (hslash : '/' ∉ s) (hcount : s.count '\x7d' ≤ 1)
    (hpiece : piece ∈ (pieces s).tail) : ¬ Encloses piece text := by
  induction s using pieces_induction with
  | uncut p hp => exact not_encloses_of_mem_pieces hp (List.mem_of_mem_tail hpiece)
  | cut p d q hp hd _ =>
    obtain rfl : d = '\x7d' := (isCut_iff.mp hd).resolve_right fun h => hslash (by simp [h])
    have hq : Uncut q := by
      -- the one closing brace is the cut itself
      have hclose : '\x7d' ∉ q := by
        rw [List.count_append, List.count_cons_self] at hcount
        exact List.count_eq_zero.mp (by omega)
      intro c hc
      have hne : c ≠ '\x7d' := ne_of_mem_of_not_mem hc hclose
      have hne' : c ≠ '/' := ne_of_mem_of_not_mem hc fun h => hslash (by simp [h])
      simp [isCut, hne, hne']
    rw [pieces_append_cons hp hd, List.tail_cons] at hpiece
    exact not_encloses_of_mem_pieces hq hpiece

/-- Patterns without a slash and with one closing brace at most do no harm. -/
theorem isFaithful_of_plain
    (h : ∀ p ∈ written segments, '/' ∉ p.pattern ∧ p.pattern.count '\x7d' ≤ 1) :
    IsFaithful segments where
  found p hp := ⟨p, hp, .inl ⟨fun hmem => (h p hp).1 (List.takeWhile_subset _ hmem), rfl⟩⟩
  known p hp name := by
    rintro ⟨-, text, ⟨piece, hpiece, htext⟩, -⟩
    exact absurd htext (not_encloses_of_mem_tail (h p hp).1 (h p hp).2 hpiece)

/-- A route of one template has the names that are found in it. -/
theorem mem_ofTemplates_render_iff : name ∈ (ofTemplates [render segments]).placeholders ↔
    ∃ p ∈ written segments, p.IsRead ∧ p.key = name ∨ p.StrayName name := by
  rw [← mem_placeholderNames_render_iff, mem_placeholderNames_iff, mem_ofTemplates_iff]
  simp only [List.mem_singleton, exists_eq_left]

/-- **Which templates give back their names.** What is found in a template are the names that are read where
they stand and the stray ones. They are the names that were written iff the patterns are faithful, and
patterns without a slash that hold one closing brace at most are. -/
theorem names_read_back_iff (segments : List Segment) :
    (∀ name, name ∈ (ofTemplates [render segments]).placeholders ↔
      ∃ p ∈ written segments, p.IsRead ∧ p.key = name ∨ p.StrayName name) ∧
    ((∀ name, name ∈ (ofTemplates [render segments]).placeholders ↔
      ∃ p ∈ written segments, p.key = name) ↔ IsFaithful segments) ∧
    ((∀ p ∈ written segments, '/' ∉ p.pattern ∧ p.pattern.count '\x7d' ≤ 1) →
      IsFaithful segments) := by
  refine ⟨fun _ => mem_ofTemplates_render_iff, ?_, isFaithful_of_plain⟩
  simp only [mem_ofTemplates_render_iff]
  constructor
  · intro h
    refine ⟨fun p hp => (h p.key).mpr ⟨p, hp, rfl⟩, fun p hp name hstray => ?_⟩
    exact (h name).mp ⟨p, hp, .inr hstray⟩
  · rintro ⟨hfound, hknown⟩ name
    constructor
    · rintro ⟨p, hp, ⟨-, hkey⟩ | hstray⟩
      · exact ⟨p, hp, hkey⟩
      · exact hknown p hp name hstray
    · rintro ⟨p, hp, rfl⟩
      exact hfound p hp

/-- A template whose last pattern repeats a letter: `/widgets/{ id }/{code:[a-z]{2}}`. -/
def widgetTemplate : List Segment :=
  [.literal "/widgets/" (by simp),
    .placeholder { name := " id ", named := by decide, plain := by simp, balanced := by decide },
    .literal "/" (by simp),
    .placeholder {
      name := "code", pattern? := some "[a-z]\x7b2\x7d"
      named := by decide, plain := by simp, balanced := by decide }]

/-- The names of the widgets are read back. -/
theorem widgetTemplate_read_back :
    (∀ p ∈ written widgetTemplate, '/' ∉ p.pattern ∧ p.pattern.count '\x7d' ≤ 1) ∧
    ∀ name, name ∈ (ofTemplates [render widgetTemplate]).placeholders ↔
      ∃ p ∈ written widgetTemplate, p.key = name := by
  have hplain : ∀ p ∈ written widgetTemplate, '/' ∉ p.pattern ∧ p.pattern.count '\x7d' ≤ 1 := by
    decide
  obtain ⟨-, hfaithful, hsimple⟩ := names_read_back_iff widgetTemplate
  exact ⟨hplain, hfaithful.mpr (hsimple hplain)⟩

/-- A template whose pattern has two repetitions. -/
def archiveTemplate : List Segment :=
  [.literal "/archive/" (by simp),
    .placeholder {
      name := "date", pattern? := some "[0-9]\x7b4\x7d-[0-9]\x7b2\x7d"
      named := by decide, plain := by simp, balanced := by decide }]

/-- A template whose pattern has a slash. -/
def fileTemplate : List Segment :=
  [.literal "/files/" (by simp),
    .placeholder {
      name := "path", pattern? := some "[a-z]+/[a-z]+"
      named := by decide, plain := by simp, balanced := by decide }]

/-- The second repetition of the date is taken for a placeholder, and the slash in the path hides one. -/
theorem patterns_misread :
    (¬ ∀ name, name ∈ (ofTemplates [render archiveTemplate]).placeholders ↔
      ∃ p ∈ written archiveTemplate, p.key = name) ∧
    ¬ ∀ name, name ∈ (ofTemplates [render fileTemplate]).placeholders ↔
      ∃ p ∈ written fileTemplate, p.key = name := by
  simp only [mem_ofTemplates_render_iff]
  refine ⟨fun h => ?_, fun h => ?_⟩
  · have hstray : ∃ p ∈ written archiveTemplate, p.IsRead ∧ p.key = "2" ∨ p.StrayName "2" := by
      refine ⟨_, List.mem_singleton_self _, .inr ⟨by decide, ['2'], ⟨"-[0-9]\x7b2\x7d".toList,
        by decide, by decide, "-[0-9]".toList, by decide, by decide⟩, ?_⟩⟩
      exact placeholderName_eq_iff.mp (by decide)
    exact absurd ((h "2").mp hstray) (by decide)
  · obtain ⟨p, hp, hfound⟩ := (h "path").mpr ⟨_, List.mem_singleton_self _, by decide⟩
    obtain rfl := List.mem_singleton.mp hp
    rcases hfound with ⟨hread, -⟩ | ⟨-, text, ⟨piece, hpiece, htext⟩, -⟩
    · exact hread (by decide)
    · obtain rfl : piece = "[a-z]+".toList := List.mem_singleton.mp hpiece
      exact not_encloses_of_uncut (by simp [Uncut, isCut]) htext

end ApiDescription.Route
