import ApiDescription.Text.Blank

/-!
# Tokens of JSON text

`Token.scan` cuts a text into punctuation, words, numbers and strings. It is one pass over the
characters: `Scan.step` takes the state before a character to the state after it, and fails at the
first character that no token can hold.

A string may hold escaped surrogates that do not pair up. Such a string obeys the grammar and denotes
no text, so its token carries none.
-/

namespace ApiDescription.Json

open Text

/-- A lexical unit of JSON text. -/
inductive Token where
  /-- One of `[`, `]`, braces, `,` and `:`. -/
  | mark (c : Char)
  /-- A run of letters. -/
  | word (letters : List Char)
  /-- A run of characters that occur in numbers. -/
  | number (literal : List Char)
  /-- A string, without text if a surrogate in it stands alone. -/
  | text (content : Option String)

namespace Token

/-- A unit of a string: a character, or half of a surrogate pair from an escape. -/
inductive Piece where
  | char (c : Char)
  | half (code : Nat)

/-- The characters of a string; each high surrogate must be followed by a low one, and each low
surrogate must follow a high one. -/
def Piece.join : List Piece → Option (List Char)
  | [] => some []
  | .char c :: rest => (c :: ·) <$> join rest
  | .half high :: .half low :: rest =>
    if high < 0xDC00 ∧ 0xDC00 ≤ low then do
      let c ← charOfCode? (0x10000 + (high - 0xD800) * 0x400 + (low - 0xDC00))
      (c :: ·) <$> join rest
    else none
  | .half _ :: _ => none

/-- The unit with the given code of sixteen bits. -/
def Piece.ofCode (code : Nat) : Piece :=
  match charOfCode? code with
  | some c => .char c
  | none => .half code

/-- Where a scan stands inside a token; what has been read of it is kept backwards. -/
inductive Mode where
  /-- Between two tokens. -/
  | between
  | word (letters : List Char)
  | number (literal : List Char)
  /-- Inside a string. -/
  | text (pieces : List Piece)
  /-- Behind the backslash of an escape. -/
  | escape (pieces : List Piece)
  /-- Inside the four digits of a numeric escape, with `missing` digits to come. -/
  | hex (pieces : List Piece) (missing : Nat) (code : Nat)

/-- A scan so far: the mode, and the finished tokens backwards. -/
structure Scan where
  mode : Mode := .between
  tokens : List Token := []

/-- The character that a one-letter escape stands for. -/
def shortEscape? : Char → Option Char
  | '"' => some '"'
  | '\\' => some '\\'
  | '/' => some '/'
  | 'b' => some '\x08'
  | 'f' => some '\x0c'
  | 'n' => some '\n'
  | 'r' => some '\r'
  | 't' => some '\t'
  | _ => none

/-- A character that may occur in a number. -/
def isNumberChar (c : Char) : Bool :=
  isDigit c || c == '-' || c == '+' || c == '.' || c == 'e' || c == 'E'

/-- Takes the first character of a token, or a blank. -/
def Scan.start (tokens : List Token) (c : Char) : Option Scan :=
  if c == ' ' || c == '\t' || c == '\n' || c == '\r' then some ⟨.between, tokens⟩
  else if c == '"' then some ⟨.text [], tokens⟩
  else if c == '[' || c == ']' || c == ',' || c == ':' || c == '\x7b' || c == '\x7d' then
    some ⟨.between, .mark c :: tokens⟩
  else if isDigit c || c == '-' then some ⟨.number [c], tokens⟩
  else if 'a' ≤ c && c ≤ 'z' then some ⟨.word [c], tokens⟩
  else none

/-- Takes one more character. -/
def Scan.step (s : Scan) (c : Char) : Option Scan :=
  match s.mode with
  | .between => start s.tokens c
  | .word letters =>
    if 'a' ≤ c && c ≤ 'z' then some { s with mode := .word (c :: letters) }
    else start (.word letters.reverse :: s.tokens) c
  | .number literal =>
    if isNumberChar c then some { s with mode := .number (c :: literal) }
    else start (.number literal.reverse :: s.tokens) c
  | .text pieces =>
    if c == '"' then
      some ⟨.between, .text ((Piece.join pieces.reverse).map String.ofList) :: s.tokens⟩
    else if c == '\\' then some { s with mode := .escape pieces }
    else if c.toNat < 0x20 then none
    else some { s with mode := .text (.char c :: pieces) }
  | .escape pieces =>
    if c == 'u' then some { s with mode := .hex pieces 4 0 }
    else (shortEscape? c).map fun d => { s with mode := .text (.char d :: pieces) }
  | .hex pieces missing code => do
    let code := 16 * code + (← hexValue? c)
    if missing ≤ 1 then some { s with mode := .text (.ofCode code :: pieces) }
    else some { s with mode := .hex pieces (missing - 1) code }

/-- The tokens of a text, if it consists of tokens and blanks. -/
def scan (text : List Char) : Option (List Token) := do
  let s ← text.foldlM Scan.step {}
  match s.mode with
  | .between => some s.tokens.reverse
  | .word letters => some (.word letters.reverse :: s.tokens).reverse
  | .number literal => some (.number literal.reverse :: s.tokens).reverse
  | _ => none

end Token

end ApiDescription.Json
