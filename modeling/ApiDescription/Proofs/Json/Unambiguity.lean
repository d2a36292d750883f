import ApiDescription.Json.Token
import ApiDescription.Proofs.Json.Grammar
import Mathlib.Tactic.Choose
import Std.Data.String.ToInt

/-!
# A JSON text spells one value

The spellings of a value differ in their blanks and in how they write the characters of strings, but they
consist of the same tokens. The scanner finds these tokens in each of them, and no two values have the same
tokens. So what a text spells can be told from it.

Results:
* `Scans.append`, `Scans.mark_cons`, `Scans.blank_append`: a scan of a text in parts.
* `scans_string`, `scans_number`: what the scanner makes of strings and numbers.
* `exists_lexes_of_spells`: the scanner finds the tokens of a value in each of its spellings.
* `Lexes.unique`: tokens that go on in any way are those of one value at most.
* `Spells.unique`: a text spells one value at most.
-/

namespace ApiDescription.Json

open Token

/-! ## Scanning a text in parts -/

/-- The scan in which the word or number that is being read has come to its end. -/
def Token.Scan.settle (s : Scan) : Scan :=
  match s.mode with
  | .word letters => ⟨.between, .word letters.reverse :: s.tokens⟩
  | .number literal => ⟨.between, .number literal.reverse :: s.tokens⟩
  | _ => s

/-- Behind the tokens `before` a text is scanned to the tokens `after`, both backwards. -/
def Scans (text : List Char) (before after : List Token) : Prop :=
  ∃ s, text.foldlM Scan.step ⟨.between, before⟩ = some s ∧ s.settle = ⟨.between, after⟩

/-- The characters that are tokens by themselves. -/
def marks : List Char :=
  ['[', ']', ',', ':', '\x7b', '\x7d']

/-- A character that ends a word or number before it. -/
def Ends (c : Char) : Prop :=
  c ∈ [' ', '\t', '\n', '\r'] ++ marks

variable {text rest blank : List Char} {before middle after : List Token} {c : Char}

theorem step_settle {s : Scan} {tokens : List Token} (hs : s.settle = ⟨.between, tokens⟩)
    (hc : Ends c) : s.step c = Scan.step ⟨.between, tokens⟩ c := by
  have hletter : ('a' ≤ c && c ≤ 'z') = false := by
    simp only [Ends, marks, List.cons_append, List.nil_append, List.mem_cons, List.not_mem_nil,
      or_false] at hc
    rcases hc with rfl | rfl | rfl | rfl | rfl | rfl | rfl | rfl | rfl | rfl <;> decide
  have hnumber : isNumberChar c = false := by
    simp only [Ends, marks, List.cons_append, List.nil_append, List.mem_cons, List.not_mem_nil,
      or_false] at hc
    rcases hc with rfl | rfl | rfl | rfl | rfl | rfl | rfl | rfl | rfl | rfl <;> decide
  obtain ⟨mode, old⟩ := s
  unfold Scan.settle at hs
  cases mode with
  | between => rw [← hs]
  | word letters =>
    obtain rfl := congrArg Scan.tokens hs
    simp only [Scan.step, hletter, Bool.false_eq_true, if_false]
  | number literal =>
    obtain rfl := congrArg Scan.tokens hs
    simp only [Scan.step, hnumber, Bool.false_eq_true, if_false]
  | text pieces => cases congrArg Scan.mode hs
  | escape pieces => cases congrArg Scan.mode hs
  | hex pieces missing code => cases congrArg Scan.mode hs

theorem scans_nil (before : List Token) : Scans [] before before :=
  ⟨_, rfl, rfl⟩

/-- A scan goes on behind a word or number if the text goes on with a character that ends it. -/
theorem Scans.append (h : Scans text before middle) (h' : Scans rest middle after)
    (hends : ∀ c ∈ rest.head?, Ends c) : Scans (text ++ rest) before after := by
  obtain ⟨s, hs, hsettle⟩ := h
  obtain ⟨s', hs', hsettle'⟩ := h'
  cases rest with
  | nil =>
    obtain rfl : (⟨.between, middle⟩ : Scan) = s' := Option.some.inj hs'
    rw [List.append_nil]
    exact ⟨s, hs, hsettle.trans hsettle'⟩
  | cons c rest =>
    refine ⟨s', ?_, hsettle'⟩
    rw [List.foldlM_append, hs]
    rw [List.foldlM_cons, ← step_settle hsettle (hends c rfl)] at hs'
    exact hs'

theorem Scans.mark_cons (hc : c ∈ marks) (h : Scans text (.mark c :: before) after) :
    Scans (c :: text) before after := by
  obtain ⟨s, hs, hsettle⟩ := h
  refine ⟨s, ?_, hsettle⟩
  have hstep : Scan.step ⟨.between, before⟩ c = some ⟨.between, .mark c :: before⟩ := by
    simp only [marks, List.mem_cons, List.not_mem_nil, or_false] at hc
    rcases hc with rfl | rfl | rfl | rfl | rfl | rfl <;> rfl
  rw [List.foldlM_cons, hstep]
  exact hs

theorem Scans.blank_append (hblank : IsBlank blank) (h : Scans text before after) :
    Scans (blank ++ text) before after := by
  induction blank with
  | nil => exact h
  | cons c blank ih =>
    obtain ⟨hc, hblank⟩ := List.forall_mem_cons.mp hblank
    obtain ⟨s, hs, hsettle⟩ := ih hblank
    refine ⟨s, ?_, hsettle⟩
    have hstep : Scan.step ⟨.between, before⟩ c = some ⟨.between, before⟩ := by
      simp only [List.mem_cons, List.not_mem_nil, or_false] at hc
      rcases hc with rfl | rfl | rfl | rfl <;> rfl
    rw [List.cons_append, List.foldlM_cons, hstep]
    exact hs

/-- Blanks and a mark are scanned to the mark. -/
theorem scans_blank_mark (hblank : IsBlank blank) (hc : c ∈ marks) (before : List Token) :
    Scans (blank ++ [c]) before (.mark c :: before) :=
  .blank_append hblank (.mark_cons hc (scans_nil _))

theorem ends_head?_blank_append (hblank : IsBlank blank) (hrest : ∀ c ∈ rest.head?, Ends c) :
    ∀ c ∈ (blank ++ rest).head?, Ends c := by
  cases blank with
  | nil => exact hrest
  | cons b blank =>
    rintro _ ⟨⟩
    exact List.mem_append_left _ (hblank b List.mem_cons_self)

/-! ## Words, numbers and strings -/

theorem isNumberChar_of_isDigit (h : c.isDigit = true) : isNumberChar c = true := by
  have hdigit : Text.isDigit c = true := by
    simpa [Text.isDigit, Char.isDigit, Char.le_def] using h
  simp [isNumberChar, hdigit]

theorem start_of_isDigit (h : c.isDigit = true) (tokens : List Token) :
    Scan.start tokens c = some ⟨.number [c], tokens⟩ := by
  have hne : ∀ d : Char, d.isDigit = false → c ≠ d := by
    rintro d hd rfl
    rw [h] at hd
    cases hd
  have hdigit : Text.isDigit c = true := by
    simpa [Text.isDigit, Char.isDigit, Char.le_def] using h
  simp [Scan.start, hne, hdigit]

/-- A number is read for as long as it goes on. -/
theorem foldlM_step_number (h : ∀ c ∈ rest, isNumberChar c = true) (literal : List Char)
    (tokens : List Token) :
    rest.foldlM Scan.step ⟨.number literal, tokens⟩ =
      some ⟨.number (rest.reverse ++ literal), tokens⟩ := by
  induction rest generalizing literal with
  | nil => rfl
  | cons c rest ih =>
    obtain ⟨hc, hrest⟩ := List.forall_mem_cons.mp h
    have hstep : Scan.step ⟨.number literal, tokens⟩ c = some ⟨.number (c :: literal), tokens⟩ := by
      simp only [Scan.step, hc, if_true]
    rw [List.foldlM_cons, hstep, Option.bind_eq_bind, Option.bind_some, ih hrest]
    simp

theorem scans_number (i : Int) (before : List Token) :
    Scans i.repr.toList before (.number i.repr.toList :: before) := by
  have hdigits : ∀ n : Nat, ∀ c ∈ Nat.toDigits 10 n, c.isDigit = true := fun n c hc =>
    Nat.isDigit_of_mem_toDigits (by decide) (by decide) hc
  -- the first character makes a number of it, and the others leave it one
  have hscan : ∀ first rest, Scan.start before first = some ⟨.number [first], before⟩ →
      (∀ c ∈ rest, c.isDigit = true) →
      Scans (first :: rest) before (.number (first :: rest) :: before) := by
    intro first rest hfirst hrest
    refine ⟨⟨.number (rest.reverse ++ [first]), before⟩, ?_, by simp [Scan.settle]⟩
    have hstep : Scan.step ⟨.between, before⟩ first = some ⟨.number [first], before⟩ := hfirst
    rw [List.foldlM_cons, hstep]
    exact foldlM_step_number (fun c hc => isNumberChar_of_isDigit (hrest c hc)) _ _
  cases i with
  | ofNat n =>
    have hrepr : (Int.repr (.ofNat n)).toList = Nat.toDigits 10 n := Nat.toList_repr
    rw [hrepr]
    cases hn : Nat.toDigits 10 n with
    | nil => exact absurd hn Nat.toDigits_ne_nil
    | cons first rest =>
      obtain ⟨hfirst, hrest⟩ := List.forall_mem_cons.mp (hn ▸ hdigits n)
      exact hscan first rest (start_of_isDigit hfirst before) hrest
  | negSucc n =>
    have hrepr : (Int.repr (.negSucc n)).toList = '-' :: Nat.toDigits 10 (n + 1) := by
      rw [← Nat.toList_repr]
      exact String.toList_append
    rw [hrepr]
    exact hscan '-' _ rfl (hdigits _)

theorem ofCode_toNat (c : Char) : Piece.ofCode c.toNat = .char c := by
  have hvalid : c.toNat.isValidChar := c.valid
  have hchar : Text.charOfCode? c.toNat = some c := by
    rw [Text.charOfCode?, dif_pos hvalid]
    rfl
  rw [Piece.ofCode, hchar]

/-- Hexadecimal digits are read up to the last of them, and give a code. -/
theorem foldlM_step_hex {digits : List Char} {values : List Nat}
    (h : digits.map Text.hexValue? = values.map some) (hne : values ≠ []) (pieces : List Piece)
    (code : Nat) (tokens : List Token) :
    digits.foldlM Scan.step ⟨.hex pieces values.length code, tokens⟩ =
      some ⟨.text (.ofCode (values.foldl (fun code value => 16 * code + value) code) :: pieces),
        tokens⟩ := by
  induction values generalizing digits code with
  | nil => exact absurd rfl hne
  | cons value values ih =>
    obtain ⟨digit, digits, rfl, hdigit, hdigits⟩ := List.map_eq_cons_iff.mp h
    rw [List.foldlM_cons]
    cases values with
    | nil =>
      obtain rfl := List.map_eq_nil_iff.mp hdigits
      simp [Scan.step, hdigit]
    | cons next values =>
      have hstep : Scan.step ⟨.hex pieces (value :: next :: values).length code, tokens⟩ digit =
          some ⟨.hex pieces (next :: values).length (16 * code + value), tokens⟩ := by
        simp [Scan.step, hdigit]
      rw [hstep]
      exact ih hdigits nofun _

/-- What stands for a character adds the character to the string. -/
theorem foldlM_step_char (h : SpellsChar c text) (pieces : List Piece) (tokens : List Token) :
    text.foldlM Scan.step ⟨.text pieces, tokens⟩ = some ⟨.text (.char c :: pieces), tokens⟩ := by
  cases h with
  | itself hquote hbackslash hcontrol =>
    simp [Scan.step, hquote, hbackslash, Nat.not_lt.mpr hcontrol]
  | short h =>
    simp only [shortEscapes, List.mem_cons, Prod.mk.injEq, List.not_mem_nil, or_false] at h
    rcases h with ⟨rfl, rfl⟩ | ⟨rfl, rfl⟩ | ⟨rfl, rfl⟩ | ⟨rfl, rfl⟩ | ⟨rfl, rfl⟩ | ⟨rfl, rfl⟩ |
      ⟨rfl, rfl⟩ | ⟨rfl, rfl⟩ <;> rfl
  | @code digits values hdigits hfour hcode =>
    have hne : values ≠ [] := List.ne_nil_of_length_eq_add_one hfour
    have hhex := foldlM_step_hex hdigits hne pieces 0 tokens
    rw [hfour, hcode, ofCode_toNat] at hhex
    exact hhex

theorem foldlM_step_chars {cs : List Char} {parts : List (List Char)}
    (h : List.Forall₂ SpellsChar cs parts) (pieces : List Piece) (tokens : List Token) :
    parts.flatten.foldlM Scan.step ⟨.text pieces, tokens⟩ =
      some ⟨.text ((cs.map .char).reverse ++ pieces), tokens⟩ := by
  induction h generalizing pieces with
  | nil => rfl
  | cons hc _ ih =>
    rw [List.flatten_cons, List.foldlM_append, foldlM_step_char hc, Option.bind_eq_bind,
      Option.bind_some, ih]
    simp

theorem join_map_char (cs : List Char) : Piece.join (cs.map .char) = some cs := by
  induction cs with
  | nil => rfl
  | cons c cs ih => simp [Piece.join, ih]

theorem scans_string {s : String} (h : SpellsString s text) (before : List Token) :
    Scans text before (.text (some s) :: before) := by
  obtain ⟨parts, hparts, rfl⟩ := h
  refine ⟨⟨.between, .text (some s) :: before⟩, ?_, rfl⟩
  have hopen : Scan.step ⟨.between, before⟩ '"' = some ⟨.text [], before⟩ := rfl
  have hclose : Scan.step ⟨.text (s.toList.map .char).reverse, before⟩ '"' =
      some ⟨.between, .text (some s) :: before⟩ := by
    simp [Scan.step, join_map_char]
  rw [List.cons_append, List.foldlM_cons, hopen, Option.bind_eq_bind, Option.bind_some,
    List.foldlM_append, foldlM_step_chars hparts, List.append_nil, Option.bind_eq_bind,
    Option.bind_some, List.foldlM_cons, hclose]
  rfl

/-! ## The tokens of a value -/

/-- The tokens of a field whose value has the tokens. -/
def fieldTokens (e : (String × Json) × List Token) : List Token :=
  .text (some e.1.1) :: .mark ':' :: e.2

/-- The tokens of a value. -/
inductive Lexes : Json → List Token → Prop
  | null : Lexes .null [.word "null".toList]
  | bool (b : Bool) : Lexes (.bool b) [.word (if b then "true" else "false").toList]
  | int (i : Int) : Lexes (.int i) [.number i.repr.toList]
  | str (s : String) : Lexes (.str s) [.text (some s)]
  | arr {entries : List (Json × List Token)} (h : ∀ e ∈ entries, Lexes e.1 e.2) :
      Lexes (.arr (entries.map (·.1)))
        (.mark '[' :: [.mark ','].intercalate (entries.map (·.2)) ++ [.mark ']'])
  | obj {entries : List ((String × Json) × List Token)} (h : ∀ e ∈ entries, Lexes e.1.2 e.2) :
      Lexes (.obj (entries.map (·.1)))
        (.mark '\x7b' :: [.mark ','].intercalate (entries.map fieldTokens) ++ [.mark '\x7d'])

/-- Texts with commas between them are scanned to their tokens with commas between them. -/
theorem scans_intercalate {α : Type} {text : α → List Char} {tokens : α → List Token}
    {entries : List α} (h : ∀ e ∈ entries, ∀ before, Scans (text e) before ((tokens e).reverse ++ before))
    (before : List Token) :
    Scans ([','].intercalate (entries.map text)) before
      (([.mark ','].intercalate (entries.map tokens)).reverse ++ before) := by
  induction entries generalizing before with
  | nil => exact scans_nil before
  | cons e rest ih =>
    obtain ⟨he, hrest⟩ := List.forall_mem_cons.mp h
    cases rest with
    | nil => simpa using he before
    | cons next rest =>
      have hcomma : Scans (',' :: [','].intercalate ((next :: rest).map text))
          ((tokens e).reverse ++ before) _ :=
        .mark_cons (by decide) (ih hrest _)
      have hends : ∀ c ∈ (',' :: [','].intercalate ((next :: rest).map text)).head?, Ends c := by
        rintro _ ⟨⟩
        exact List.mem_append_right _ (by decide)
      simpa [List.intercalate_cons_cons] using (he before).append hcomma hends

/-- An opening mark, texts with commas between them, blanks and a closing mark are scanned in turn. -/
theorem scans_enclosed {α : Type} {text : α → List Char} {tokens : α → List Token}
    {entries : List α} {first last : Char} (hfirst : first ∈ marks) (hlast : last ∈ marks)
    (hblank : IsBlank blank)
    (h : ∀ e ∈ entries, ∀ before, Scans (text e) before ((tokens e).reverse ++ before))
    (before : List Token) :
    Scans (first :: [','].intercalate (entries.map text) ++ blank ++ [last]) before
      ((mark first :: [mark ','].intercalate (entries.map tokens) ++ [mark last]).reverse ++ before) := by
  have hends : ∀ c ∈ (blank ++ [last]).head?, Ends c :=
    ends_head?_blank_append hblank fun c hc =>
      List.mem_append_right _ (Option.mem_some.mp hc ▸ hlast)
  have hinner := (scans_intercalate h (.mark first :: before)).append
    (scans_blank_mark hblank hlast _) hends
  simpa using Scans.mark_cons hfirst hinner

theorem exists_lexes_of_spells {value : Json} (h : Spells value text) :
    ∃ tokens, Lexes value tokens ∧ ∀ before, Scans text before (tokens.reverse ++ before) := by
  induction h with
  | null => exact ⟨_, .null, fun before => ⟨_, rfl, rfl⟩⟩
  | bool b => cases b <;> exact ⟨_, .bool _, fun before => ⟨_, rfl, rfl⟩⟩
  | int i => exact ⟨_, .int i, scans_number i⟩
  | str h => exact ⟨_, .str _, scans_string h⟩
  | @arr entries blank hblank h ih =>
    choose! tokens hlexes hscans using ih
    refine ⟨_, ?_, scans_enclosed (by decide) (by decide) hblank hscans⟩
    have hitems : ∀ e ∈ entries.map fun e => (e.1, tokens e), Lexes e.1 e.2 :=
      List.forall_mem_map.mpr hlexes
    simpa [Function.comp_def] using Lexes.arr hitems
  | @obj entries blank hblank hkeys h ihkeys ih =>
    choose! tokens hlexes hscans using ih
    have hfield : ∀ e ∈ entries, ∀ before, Scans (e.2.1 ++ ':' :: e.2.2) before
        ((fieldTokens (e.1, tokens e)).reverse ++ before) := by
      intro e he before
      obtain ⟨_, hkey, hkeyScans⟩ := ihkeys e he
      cases hkey
      have hvalue := Scans.mark_cons (c := ':') (by decide)
        (hscans e he (.mark ':' :: .text (some e.1.1) :: before))
      simpa [fieldTokens] using (hkeyScans before).append hvalue fun c hc =>
        List.mem_append_right _ (Option.mem_some.mp hc ▸ by decide)
    refine ⟨_, ?_, scans_enclosed (by decide) (by decide) hblank hfield⟩
    have hvalues : ∀ e ∈ entries.map fun e => (e.1, tokens e), Lexes e.1.2 e.2 :=
      List.forall_mem_map.mpr hlexes
    simpa [Function.comp_def] using Lexes.obj hvalues
  | @blank _ _ _ behind hbefore hbehind h ih =>
    obtain ⟨tokens, hlexes, hscans⟩ := ih
    refine ⟨tokens, hlexes, fun before => ?_⟩
    have hrest : Scans behind (tokens.reverse ++ before) (tokens.reverse ++ before) := by
      simpa using Scans.blank_append hbehind (scans_nil (tokens.reverse ++ before))
    have hends : ∀ c ∈ behind.head?, Ends c := by
      rintro c hc
      exact List.mem_append_left _ (hbehind c (List.mem_of_mem_head? hc))
    rw [List.append_assoc]
    exact .blank_append hbefore ((hscans before).append hrest hends)

/-! ## Tokens of different values -/

/-- An item in an array is not taken for the end of the array. -/
theorem Lexes.append_ne_close {v : Json} {ts r r' : List Token} (h : Lexes v ts) :
    ts ++ r ≠ .mark ']' :: r' := by
  cases h <;> simp

section Separated

variable {α β : Type} {tokens : α → List Token} {f : α → β} {close : Char} {xs ys : List α}
  {r r' : List Token}

/-- Items that follow one another behind commas are told apart if each of them is. -/
theorem flatMap_comma_unique (hclose : close ≠ ',')
    (h : ∀ x ∈ xs, ∀ y ∈ ys, ∀ r r', tokens x ++ r = tokens y ++ r' → f x = f y ∧ r = r')
    (he : (xs.map tokens).flatMap (.mark ',' :: ·) ++ .mark close :: r =
      (ys.map tokens).flatMap (.mark ',' :: ·) ++ .mark close :: r') :
    xs.map f = ys.map f ∧ r = r' := by
  induction xs generalizing ys with
  | nil =>
    cases ys with
    | nil => simpa using he
    | cons y ys => simp [hclose] at he
  | cons x xs ih =>
    cases ys with
    | nil => simp [hclose.symm] at he
    | cons y ys =>
      have htail : tokens x ++ ((xs.map tokens).flatMap (.mark ',' :: ·) ++ .mark close :: r) =
          tokens y ++ ((ys.map tokens).flatMap (.mark ',' :: ·) ++ .mark close :: r') := by
        simpa using he
      obtain ⟨hhead, hrest⟩ := h x List.mem_cons_self y List.mem_cons_self _ _ htail
      obtain ⟨hmap, hr⟩ := ih
        (fun x hx y hy => h x (List.mem_cons_of_mem _ hx) y (List.mem_cons_of_mem _ hy)) hrest
      exact ⟨congrArg₂ List.cons hhead hmap, hr⟩

/-- Items with commas between them are told apart if each of them is, and none is taken for the end. -/
theorem intercalate_comma_unique (hclose : close ≠ ',')
    (h : ∀ x ∈ xs, ∀ y ∈ ys, ∀ r r', tokens x ++ r = tokens y ++ r' → f x = f y ∧ r = r')
    (hxs : ∀ x ∈ xs, ∀ r r', tokens x ++ r ≠ .mark close :: r')
    (hys : ∀ y ∈ ys, ∀ r r', tokens y ++ r ≠ .mark close :: r')
    (he : [.mark ','].intercalate (xs.map tokens) ++ .mark close :: r =
      [.mark ','].intercalate (ys.map tokens) ++ .mark close :: r') :
    xs.map f = ys.map f ∧ r = r' := by
  cases xs with
  | nil =>
    cases ys with
    | nil => simpa using he
    | cons y ys =>
      rw [List.map_cons, intercalate_cons, List.append_assoc] at he
      exact absurd he.symm (hys y List.mem_cons_self _ _)
  | cons x xs =>
    rw [List.map_cons, intercalate_cons, List.append_assoc] at he
    cases ys with
    | nil => exact absurd he (hxs x List.mem_cons_self _ _)
    | cons y ys =>
      rw [List.map_cons, intercalate_cons, List.append_assoc] at he
      obtain ⟨hhead, hrest⟩ := h x List.mem_cons_self y List.mem_cons_self _ _ he
      obtain ⟨hmap, hr⟩ := flatMap_comma_unique hclose
        (fun x hx y hy => h x (List.mem_cons_of_mem _ hx) y (List.mem_cons_of_mem _ hy)) hrest
      exact ⟨congrArg₂ List.cons hhead hmap, hr⟩

end Separated

theorem Lexes.unique {v w : Json} {ts us r r' : List Token} (h : Lexes v ts) (h' : Lexes w us)
    (he : ts ++ r = us ++ r') : v = w ∧ r = r' := by
  induction h generalizing w us r r' with
  | null =>
    cases h' with
    | null => simpa using he
    | bool b => cases b <;> simp at he
    | _ => simp at he
  | bool b =>
    cases h' with
    | bool b' => cases b <;> cases b' <;> simp at he ⊢ <;> exact he
    | null => cases b <;> simp at he
    | _ => simp at he
  | int i =>
    cases h' with
    | int j =>
      obtain ⟨hrepr, hr⟩ := List.cons.inj he
      have hstring := String.toList_injective (Token.number.inj hrepr)
      exact ⟨congrArg Json.int (Int.repr_injective hstring), hr⟩
    | _ => simp at he
  | str s =>
    cases h' with
    | str s' => simpa using he
    | _ => simp at he
  | @arr entries h ih =>
    cases h' with
    | @arr entries' h' =>
      have he : [mark ','].intercalate (entries.map (·.2)) ++ mark ']' :: r =
          [mark ','].intercalate (entries'.map (·.2)) ++ mark ']' :: r' := by
        simpa using he
      obtain ⟨hmap, hr⟩ := intercalate_comma_unique (by decide)
        (fun x hx y hy _ _ he => ih x hx (h' y hy) he)
        (fun x hx _ _ => (h x hx).append_ne_close) (fun y hy _ _ => (h' y hy).append_ne_close) he
      exact ⟨congrArg Json.arr hmap, hr⟩
    | _ => simp at he
  | @obj entries h ih =>
    cases h' with
    | @obj entries' h' =>
      have he : [mark ','].intercalate (entries.map fieldTokens) ++ mark '\x7d' :: r =
          [mark ','].intercalate (entries'.map fieldTokens) ++ mark '\x7d' :: r' := by
        simpa using he
      have hfield : ∀ x ∈ entries, ∀ y ∈ entries', ∀ r r',
          fieldTokens x ++ r = fieldTokens y ++ r' → x.1 = y.1 ∧ r = r' := by
        intro x hx y hy r r' he
        obtain ⟨hkey, htail⟩ := List.cons.inj he
        obtain ⟨hvalue, hr⟩ := ih x hx (h' y hy) (List.cons.inj htail).2
        exact ⟨Prod.ext (Option.some.inj (Token.text.inj hkey)) hvalue, hr⟩
      obtain ⟨hmap, hr⟩ := intercalate_comma_unique (by decide) hfield
        (fun _ _ _ _ he => nomatch (List.cons.inj he).1)
        (fun _ _ _ _ he => nomatch (List.cons.inj he).1) he
      exact ⟨congrArg Json.obj hmap, hr⟩
    | _ => simp at he

/-- **A text spells one value at most.** -/
theorem Spells.unique {v w : Json} (h : Spells v text) (h' : Spells w text) : v = w := by
  obtain ⟨ts, hv, hscan⟩ := exists_lexes_of_spells h
  obtain ⟨us, hw, hscan'⟩ := exists_lexes_of_spells h'
  obtain ⟨s, hs, hsettle⟩ := hscan []
  obtain ⟨s', hs', hsettle'⟩ := hscan' []
  obtain rfl := Option.some.inj (hs.symm.trans hs')
  have htokens : ts = us := by
    have hreverse := congrArg Scan.tokens (hsettle.symm.trans hsettle')
    simpa using hreverse
  exact (hv.unique hw (congrArg (· ++ []) htokens)).1

end ApiDescription.Json
