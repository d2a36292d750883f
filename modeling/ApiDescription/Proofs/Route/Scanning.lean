import ApiDescription.Proofs.Text.Trimming
import ApiDescription.Route
import Mathlib.Data.List.SplitBy

/-!
# Placeholders as pieces of a template

The scan for placeholders goes on where the last placeholder ended, and begins anew behind every opening
brace that leads to none. The same placeholders are found without a scan: a template is cut behind every
closing brace and every slash, and a piece that a closing brace ends encloses the text behind its first
opening brace. No piece depends on another one, so the route of several templates is made of the routes of
each, and their order has no influence.

Results:
* `mem_placeholderTexts_iff`: the scan finds what the pieces enclose.
* `placeholderName_eq_iff`: the name of a placeholder is what stands before the first colon, trimmed.
* `mem_ofTemplates_iff`, `ofTemplates_congr`: a route is the set of the names in its templates.
* `of_perm`: the order of the ancestors has no influence on a route.
* `placeholders_by_pieces`: all of it together.
-/

namespace ApiDescription.Route

open Text

/-- A template is cut behind closing braces and slashes. -/
def isCut (c : Char) : Bool :=
  c = '\x7d' || c = '/'

/-- No character behind which a template is cut. -/
def Uncut (s : List Char) : Prop :=
  ∀ c ∈ s, isCut c = false

/-- The pieces of a template. -/
def pieces (template : List Char) : List (List Char) :=
  template.splitBy fun c _ => !isCut c

/-- A piece that a closing brace ends encloses the text behind its first opening brace, unless that is
empty. -/
def Encloses (piece text : List Char) : Prop :=
  text ≠ [] ∧ ∃ before, '\x7b' ∉ before ∧ piece = before ++ '\x7b' :: (text ++ ['\x7d'])

/-- The name of a placeholder: the text before the first colon without the blanks around it. -/
def IsNameOf (name : String) (text : List Char) : Prop :=
  ∃ head tail, text = head ++ tail ∧ ':' ∉ head ∧ (∀ c, tail.head? = some c → c = ':') ∧
    IsTrimmed name.toList ∧ IsPadded head name.toList

/-- A template has a placeholder with this name. -/
def Reads (template name : String) : Prop :=
  name ≠ "" ∧ ∃ piece ∈ pieces template.toList, ∃ text, Encloses piece text ∧ IsNameOf name text

variable {c d : Char} {s p rest text : List Char} {name template : String}

/-! ## Cutting -/

theorem isCut_iff : isCut c = true ↔ c = '\x7d' ∨ c = '/' := by
  simp [isCut]

theorem Uncut.cons_iff : Uncut (c :: s) ↔ isCut c = false ∧ Uncut s :=
  List.forall_mem_cons

theorem isChain_append_singleton (hp : Uncut p) :
    (p ++ [d]).IsChain fun c _ => (!isCut c) = true := by
  induction p with
  | nil => exact List.isChain_singleton _
  | cons c p ih =>
    obtain ⟨hc, hp⟩ := Uncut.cons_iff.mp hp
    exact List.isChain_cons.mpr ⟨fun _ _ => by simp [hc], ih hp⟩

theorem pieces_append_cons (hp : Uncut p) (hd : isCut d = true) (rest : List Char) :
    pieces (p ++ d :: rest) = (p ++ [d]) :: pieces rest := by
  have happend : p ++ d :: rest = p ++ [d] ++ rest := by simp
  rw [pieces, happend, List.splitBy_append (by simp [hd]),
    List.splitBy_of_isChain (by simp) (isChain_append_singleton hp)]
  rfl

theorem pieces_of_uncut (hp : Uncut p) (hne : p ≠ []) : pieces p = [p] := by
  obtain ⟨front, last, rfl⟩ := (List.eq_nil_or_concat p).resolve_left hne
  rw [List.concat_eq_append] at hp ⊢
  exact List.splitBy_of_isChain (by simp)
    (isChain_append_singleton fun c hc => hp c (List.mem_append_left _ hc))

theorem eq_of_mem_pieces {piece : List Char} (hp : Uncut p) (h : piece ∈ pieces p) : piece = p := by
  by_cases hne : p = []
  · simp [hne, pieces] at h
  · rwa [pieces_of_uncut hp hne, List.mem_singleton] at h

/-- Induction along the pieces of a text. -/
theorem pieces_induction {motive : List Char → Prop} (uncut : ∀ p, Uncut p → motive p)
    (cut : ∀ p d rest, Uncut p → isCut d = true → motive rest → motive (p ++ d :: rest))
    (s : List Char) : motive s := by
  -- what has been passed since the last cut is kept in front
  suffices h : ∀ p, Uncut p → motive (p ++ s) from h [] (by simp [Uncut])
  induction s with
  | nil =>
    intro p hp
    rw [List.append_nil]
    exact uncut p hp
  | cons c s ih =>
    intro p hp
    cases hc : isCut c with
    | true => exact cut p c s hp hc (ih [] (by simp [Uncut]))
    | false =>
      have hpc : Uncut (p ++ [c]) := fun e he => by
        rcases List.mem_append.mp he with he | he
        · exact hp e he
        · rw [List.mem_singleton.mp he, hc]
      have happend : p ++ c :: s = p ++ [c] ++ s := by simp
      exact happend ▸ ih _ hpc

/-! ## Enclosed texts -/

theorem encloses_cons_iff (hc : c ≠ '\x7b') : Encloses (c :: s) text ↔ Encloses s text := by
  refine and_congr_right fun _ => ⟨?_, ?_⟩
  · rintro ⟨_ | ⟨b, before⟩, hbefore, heq⟩
    · exact absurd (List.cons.inj heq).1 hc
    · exact ⟨before, fun h => hbefore (List.mem_cons_of_mem b h), (List.cons.inj heq).2⟩
  · rintro ⟨before, hbefore, rfl⟩
    exact ⟨c :: before, by simp [hbefore, hc.symm], rfl⟩

theorem encloses_brace_iff : Encloses ('\x7b' :: s) text ↔ text ≠ [] ∧ s = text ++ ['\x7d'] := by
  refine and_congr_right fun _ => ⟨?_, ?_⟩
  · rintro ⟨_ | ⟨b, before⟩, hbefore, heq⟩
    · exact (List.cons.inj heq).2
    · exact absurd ((List.cons.inj heq).1 ▸ List.mem_cons_self) hbefore
  · rintro rfl
    exact ⟨[], by simp, rfl⟩

theorem not_encloses_of_uncut (hp : Uncut p) : ¬ Encloses p text := by
  rintro ⟨-, before, -, rfl⟩
  exact absurd (hp '\x7d' (by simp)) (by decide)

/-- Nothing is enclosed in a text that is not cut. -/
theorem not_encloses_of_mem_pieces {piece : List Char} (hp : Uncut p) (h : piece ∈ pieces p) :
    ¬ Encloses piece text := by
  rw [eq_of_mem_pieces hp h]
  exact not_encloses_of_uncut hp

theorem append_slash_ne_append_brace (p s : List Char) : p ++ ['/'] ≠ s ++ ['\x7d'] :=
  fun h => absurd (List.append_inj' h rfl).2 (by decide)

theorem not_encloses_append_slash : ¬ Encloses (p ++ ['/']) text := by
  rintro ⟨-, before, -, heq⟩
  exact append_slash_ne_append_brace p (before ++ '\x7b' :: text) (by simp [heq])

theorem not_encloses_singleton : ¬ Encloses [c] text := by
  rintro ⟨-, before, -, heq⟩
  have hlength := congrArg List.length heq
  simp only [List.length_append, List.length_cons, List.length_nil] at hlength
  omega

/-! ## Scanning -/

theorem placeholderText?_cons (hc : isCut c = false) (s : List Char) :
    placeholderText? (c :: s) = (placeholderText? s).map fun (text, rest) => (c :: text, rest) := by
  simp only [isCut, Bool.or_eq_false_iff, decide_eq_false_iff_not] at hc
  rw [placeholderText?, if_neg hc.1, if_neg hc.2]

theorem placeholderText?_of_uncut (hp : Uncut p) : placeholderText? p = none := by
  induction p with
  | nil => rfl
  | cons c p ih =>
    obtain ⟨hc, hp⟩ := Uncut.cons_iff.mp hp
    rw [placeholderText?_cons hc, ih hp, Option.map_none]

theorem placeholderText?_append_brace (hp : Uncut p) (rest : List Char) :
    placeholderText? (p ++ '\x7d' :: rest) = some (p, rest) := by
  induction p with
  | nil => simp [placeholderText?]
  | cons c p ih =>
    obtain ⟨hc, hp⟩ := Uncut.cons_iff.mp hp
    rw [List.cons_append, placeholderText?_cons hc, ih hp, Option.map_some]

theorem placeholderText?_append_slash (hp : Uncut p) (rest : List Char) :
    placeholderText? (p ++ '/' :: rest) = none := by
  induction p with
  | nil => simp [placeholderText?]
  | cons c p ih =>
    obtain ⟨hc, hp⟩ := Uncut.cons_iff.mp hp
    rw [List.cons_append, placeholderText?_cons hc, ih hp, Option.map_none]

theorem placeholderTexts_cons_of_ne (hc : c ≠ '\x7b') (s : List Char) :
    placeholderTexts (c :: s) = placeholderTexts s := by
  rw [placeholderTexts, if_neg hc]

theorem placeholderTexts_of_some {e : Char} {text behind : List Char}
    (h : placeholderText? s = some (e :: text, behind)) :
    placeholderTexts ('\x7b' :: s) = (e :: text) :: placeholderTexts behind := by
  rw [placeholderTexts, if_pos rfl]
  split
  · next heq =>
    rw [h, Option.some.injEq, Prod.mk.injEq] at heq
    rw [heq.1, heq.2]
  · next hno => exact absurd h (hno _ _ _)

/-- Behind an opening brace that leads to no placeholder the scan begins anew. -/
theorem placeholderTexts_of_forall_ne
    (h : ∀ e text behind, placeholderText? s ≠ some (e :: text, behind)) :
    placeholderTexts ('\x7b' :: s) = placeholderTexts s := by
  rw [placeholderTexts, if_pos rfl]
  split
  · next heq => exact absurd heq (h _ _ _)
  · rfl

theorem placeholderTexts_of_uncut (hp : Uncut p) : placeholderTexts p = [] := by
  induction p with
  | nil => rw [placeholderTexts]
  | cons c p ih =>
    have hrest := (Uncut.cons_iff.mp hp).2
    by_cases hc : c = '\x7b'
    · subst hc
      rw [placeholderTexts_of_forall_ne (by simp [placeholderText?_of_uncut hrest]), ih hrest]
    · rw [placeholderTexts_cons_of_ne hc, ih hrest]

/-- What the scan finds up to a cut is what the piece before the cut encloses. -/
theorem mem_placeholderTexts_append_cons (hp : Uncut p) (hd : isCut d = true) :
    text ∈ placeholderTexts (p ++ d :: rest) ↔
      Encloses (p ++ [d]) text ∨ text ∈ placeholderTexts rest := by
  induction p with
  | nil =>
    have hne : d ≠ '\x7b' := by
      rintro rfl
      exact absurd hd (by decide)
    rw [List.nil_append, List.nil_append, placeholderTexts_cons_of_ne hne,
      or_iff_right not_encloses_singleton]
  | cons c p ih =>
    have hrest := (Uncut.cons_iff.mp hp).2
    rw [List.cons_append, List.cons_append]
    by_cases hc : c = '\x7b'
    · subst hc
      rw [encloses_brace_iff]
      rcases isCut_iff.mp hd with rfl | rfl
      · cases p with
        | nil =>
          -- with nothing between the braces, neither the piece nor its end encloses a text
          rw [placeholderTexts_of_forall_ne (by simp [placeholderText?]), ih hrest, List.nil_append,
            or_iff_right not_encloses_singleton, or_iff_right]
          rintro ⟨hne, heq⟩
          exact hne (List.self_eq_append_left.mp heq)
        | cons e p =>
          rw [placeholderTexts_of_some (placeholderText?_append_brace hrest rest), List.mem_cons,
            List.append_cancel_right_eq]
          refine or_congr_left ⟨?_, fun h => h.2.symm⟩
          rintro rfl
          exact ⟨List.cons_ne_nil e p, rfl⟩
      · rw [placeholderTexts_of_forall_ne (by simp [placeholderText?_append_slash hrest]), ih hrest,
          or_iff_right not_encloses_append_slash, or_iff_right]
        exact fun h => append_slash_ne_append_brace p text h.2
    · rw [placeholderTexts_cons_of_ne hc, encloses_cons_iff hc, ih hrest]

/-- The scan finds what the pieces enclose. -/
theorem mem_placeholderTexts_iff :
    text ∈ placeholderTexts s ↔ ∃ piece ∈ pieces s, Encloses piece text := by
  induction s using pieces_induction with
  | uncut p hp =>
    rw [placeholderTexts_of_uncut hp]
    refine iff_of_false List.not_mem_nil ?_
    rintro ⟨piece, hpiece, h⟩
    exact not_encloses_of_mem_pieces hp hpiece h
  | cut p d rest hp hd ih =>
    rw [mem_placeholderTexts_append_cons hp hd, pieces_append_cons hp hd, List.exists_mem_cons_iff, ih]

/-! ## Names -/

/-- The name of a placeholder is what stands before the first colon, trimmed. -/
theorem placeholderName_eq_iff : placeholderName text = name ↔ IsNameOf name text := by
  rw [placeholderName, ← String.toList_inj, String.toList_ofList, trimChars_eq_iff]
  constructor
  · rintro ⟨htrimmed, hpadded⟩
    obtain ⟨htext, hhead, htail⟩ := takeWhile_dropWhile_eq_iff.mp
      ⟨(rfl : text.takeWhile (· ≠ ':') = _), (rfl : text.dropWhile (· ≠ ':') = _)⟩
    exact ⟨_, _, htext, fun h => by simpa using hhead ':' h, fun c hc => by simpa using htail c hc,
      htrimmed, hpadded⟩
  · rintro ⟨head, tail, htext, hhead, htail, htrimmed, hpadded⟩
    obtain ⟨htake, -⟩ := takeWhile_dropWhile_eq_iff (p := (· ≠ ':')).mpr ⟨htext,
      fun c hc => by simpa using ne_of_mem_of_not_mem hc hhead, fun c hc => by simp [htail c hc]⟩
    rw [htake]
    exact ⟨htrimmed, hpadded⟩

theorem mem_placeholderNames_iff : name ∈ placeholderNames template ↔ Reads template name := by
  simp only [placeholderNames, Reads, List.mem_filter, List.mem_map, decide_eq_true_eq,
    mem_placeholderTexts_iff, placeholderName_eq_iff]
  constructor
  · rintro ⟨⟨text, ⟨piece, hpiece, htext⟩, hname⟩, hne⟩
    exact ⟨hne, piece, hpiece, text, htext, hname⟩
  · rintro ⟨hne, piece, hpiece, text, htext, hname⟩
    exact ⟨⟨text, ⟨piece, hpiece, htext⟩, hname⟩, hne⟩

/-! ## Routes -/

variable {templates others : List String}

/-- A route is the set of the names in its templates. -/
theorem mem_ofTemplates_iff :
    name ∈ (ofTemplates templates).placeholders ↔ ∃ template ∈ templates, Reads template name := by
  rw [ofTemplates, Std.ExtTreeSet.mem_ofList, List.contains_iff_mem, List.mem_flatMap]
  simp only [mem_placeholderNames_iff]

/-- The same templates make the same route, in whatever order and however often they appear. -/
theorem ofTemplates_congr (h : ∀ template, template ∈ templates ↔ template ∈ others) :
    ofTemplates templates = ofTemplates others := by
  refine congrArg Route.mk (Std.ExtTreeSet.ext_mem fun name => ?_)
  refine mem_ofTemplates_iff.trans (Iff.trans ?_ mem_ofTemplates_iff.symm)
  simp only [h]

/-- The order of the ancestors has no influence on a route. -/
theorem of_perm {ancestors ancestors' : List Declaration} (h : ancestors.Perm ancestors')
    (web : WebTags) (d : Declaration) : of web d ancestors = of web d ancestors' :=
  ofTemplates_congr fun _ => ((h.cons d).flatMap_right _).mem_iff

/-- **The placeholders of a route by pieces.** They are the names that the pieces of its templates enclose;
so every template gives its own, and the order of the ancestors has no influence. -/
theorem placeholders_by_pieces (templates : List String) :
    (∀ name, name ∈ (ofTemplates templates).placeholders ↔
      ∃ template ∈ templates, Reads template name) ∧
    (∀ name, name ∈ (ofTemplates templates).placeholders ↔
      ∃ template ∈ templates, name ∈ (ofTemplates [template]).placeholders) ∧
    ∀ (web : WebTags) (d : Declaration) (ancestors ancestors' : List Declaration),
      ancestors.Perm ancestors' → of web d ancestors = of web d ancestors' := by
  refine ⟨fun _ => mem_ofTemplates_iff, fun name => ?_, fun web d _ _ h => of_perm h web d⟩
  simp only [mem_ofTemplates_iff, List.mem_singleton, exists_eq_left]

/-- A type with a mapping that its methods inherit. -/
def tenants : Declaration :=
  (Declaration.ofType "shop.Tenants").withTag (WebTags.requestMapping {})
    (.ofElements [("path", .list [.str "/tenants/\x7btenant\x7d"])])

/-- An interface with a mapping. -/
def paged : Declaration :=
  (Declaration.ofType "shop.Paged").withTag (WebTags.requestMapping {})
    (.ofElements [("value", .str "/\x7bpage:[0-9]+\x7d")])

/-- The route of a method below two mappings, and a placeholder behind two braces that lead to none. -/
theorem paged_placeholders :
    [tenants, paged].Perm [paged, tenants] ∧
    of {} (.ofMethod "find" .void) [tenants, paged] = of {} (.ofMethod "find" .void) [paged, tenants] ∧
    "\x7b id" ∈ (ofTemplates ["/\x7ba/\x7b\x7d/\x7b\x7b id : [0-9]+\x7d"]).placeholders := by
  have hperm : [tenants, paged].Perm [paged, tenants] := .swap ..
  obtain ⟨hpieces, -, horder⟩ :=
    placeholders_by_pieces ["/\x7ba/\x7b\x7d/\x7b\x7b id : [0-9]+\x7d"]
  refine ⟨hperm, horder {} _ _ _ hperm, (hpieces _).mpr ⟨_, List.mem_singleton_self _, by decide,
    "\x7b\x7b id : [0-9]+\x7d".toList, by decide, "\x7b id : [0-9]+".toList,
    ⟨by decide, [], by decide, by decide⟩, placeholderName_eq_iff.mp (by decide)⟩⟩

end ApiDescription.Route
