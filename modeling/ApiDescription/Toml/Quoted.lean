import ApiDescription.Text.Blank
import ApiDescription.Toml.Basic

/-!
# Strings and keys of TOML

TOML has four kinds of strings: basic and literal, each on one line or on several. A basic string has
escapes, a literal one has none. A string on several lines drops a line break right behind its opening
quotes, holds a line break as a line feed, and may end with up to two quotes of its own before the
closing three.

Every reader here takes the text from where it stands and gives the content with the text behind it.
-/

namespace ApiDescription.Toml

open Text

/-- A tab or a space. -/
def isGap (c : Char) : Bool :=
  c == ' ' || c == '\t'

/-- The text behind tabs and spaces. -/
def skipGap (s : List Char) : List Char :=
  s.dropWhile isGap

/-- A character that may stand in a comment or a string: no control character but the tab. -/
def isPlain (c : Char) : Bool :=
  c == '\t' || (0x20 ≤ c.toNat && c.toNat != 0x7F)

/-- The character that a one-letter escape stands for. -/
def shortEscape? : Char → Option Char
  | 'b' => some '\x08'
  | 't' => some '\t'
  | 'n' => some '\n'
  | 'f' => some '\x0c'
  | 'r' => some '\r'
  | '"' => some '"'
  | '\\' => some '\\'
  | _ => none

/-- The character with the code that hexadecimal digits denote. -/
def hexChar? (digits : List Char) : Option Char := do
  let code ← digits.foldlM (fun code c => (16 * code + ·) <$> hexValue? c) 0
  charOfCode? code

/-- Puts a character before the content that was read behind it. -/
def before (c : Char) : Option (List Char × List Char) → Option (List Char × List Char)
  | some (content, rest) => some (c :: content, rest)
  | none => none

/-- The content of a basic string, from behind its opening quote. -/
def basic? : List Char → Option (List Char × List Char)
  | '"' :: rest => some ([], rest)
  | '\\' :: 'u' :: a :: b :: c :: d :: rest => do
    before (← hexChar? [a, b, c, d]) (basic? rest)
  | '\\' :: 'U' :: a :: b :: c :: d :: e :: f :: g :: h :: rest => do
    before (← hexChar? [a, b, c, d, e, f, g, h]) (basic? rest)
  | '\\' :: c :: rest => do before (← shortEscape? c) (basic? rest)
  | c :: rest => if isPlain c then before c (basic? rest) else none
  | [] => none

/-- The content of a literal string, from behind its opening quote. -/
def literal? : List Char → Option (List Char × List Char)
  | '\'' :: rest => some ([], rest)
  | c :: rest => if isPlain c then before c (literal? rest) else none
  | [] => none

/-- Whether a line ends here, but for tabs and spaces. -/
def endsLine (s : List Char) : Bool :=
  match skipGap s with
  | '\n' :: _ | '\r' :: '\n' :: _ => true
  | _ => false

/-- The content of a basic string of several lines, from behind its opening quotes. A backslash at the
end of a line drops all blanks and line breaks up to the next character; `dropping` says that this is
going on. -/
def multiBasic? (dropping : Bool) : List Char → Option (List Char × List Char)
  | '"' :: '"' :: '"' :: '"' :: '"' :: rest => some (['"', '"'], rest)
  | '"' :: '"' :: '"' :: '"' :: rest => some (['"'], rest)
  | '"' :: '"' :: '"' :: rest => some ([], rest)
  | '\n' :: rest => if dropping then multiBasic? true rest else before '\n' (multiBasic? false rest)
  | '\r' :: '\n' :: rest =>
    if dropping then multiBasic? true rest else before '\n' (multiBasic? false rest)
  | '\\' :: 'u' :: a :: b :: c :: d :: rest => do
    before (← hexChar? [a, b, c, d]) (multiBasic? false rest)
  | '\\' :: 'U' :: a :: b :: c :: d :: e :: f :: g :: h :: rest => do
    before (← hexChar? [a, b, c, d, e, f, g, h]) (multiBasic? false rest)
  | '\\' :: c :: rest =>
    match shortEscape? c with
    | some d => before d (multiBasic? false rest)
    | none =>
      if endsLine (c :: rest) && (isGap c || c == '\n' || c == '\r') then multiBasic? true rest
      else none
  | c :: rest =>
    if dropping && isGap c then multiBasic? true rest
    else if isPlain c then before c (multiBasic? false rest)
    else none
  | [] => none

/-- The content of a literal string of several lines, from behind its opening quotes. -/
def multiLiteral? : List Char → Option (List Char × List Char)
  | '\'' :: '\'' :: '\'' :: '\'' :: '\'' :: rest => some (['\'', '\''], rest)
  | '\'' :: '\'' :: '\'' :: '\'' :: rest => some (['\''], rest)
  | '\'' :: '\'' :: '\'' :: rest => some ([], rest)
  | '\n' :: rest => before '\n' (multiLiteral? rest)
  | '\r' :: '\n' :: rest => before '\n' (multiLiteral? rest)
  | c :: rest => if isPlain c then before c (multiLiteral? rest) else none
  | [] => none

/-- The text without a line break at its beginning. -/
def skipBreak : List Char → List Char
  | '\n' :: rest => rest
  | '\r' :: '\n' :: rest => rest
  | s => s

/-- The content of a string of any kind, from its opening quote. -/
def quoted? : List Char → Option (List Char × List Char)
  | '"' :: '"' :: '"' :: rest => multiBasic? false (skipBreak rest)
  | '"' :: rest => basic? rest
  | '\'' :: '\'' :: '\'' :: rest => multiLiteral? (skipBreak rest)
  | '\'' :: rest => literal? rest
  | _ => none

/-! ## Keys -/

/-- A character of a key without quotes. -/
def isBare (c : Char) : Bool :=
  isDigit c || ('a' ≤ c && c ≤ 'z') || ('A' ≤ c && c ≤ 'Z') || c == '-' || c == '_'

/-- One part of a key. -/
def keyPart? : List Char → Option (String × List Char)
  | '"' :: rest => (fun (content, rest) => (String.ofList content, rest)) <$> basic? rest
  | '\'' :: rest => (fun (content, rest) => (String.ofList content, rest)) <$> literal? rest
  | s =>
    let part := s.takeWhile isBare
    if part = [] then none else some (String.ofList part, s.dropWhile isBare)

/-- The parts of a key, separated by points, at most `most` of them, and the text behind the key and the
gap that follows. -/
def keyParts? (most : Nat) (s : List Char) : Option (List String × List Char) :=
  match most, keyPart? (skipGap s) with
  | most + 1, some (part, rest) =>
    match skipGap rest with
    | '.' :: rest => (fun (parts, rest) => (part :: parts, rest)) <$> keyParts? most rest
    | rest => some ([part], rest)
  | _, _ => none

/-- A key, which has at most `depthLimit` parts, and the text behind it and the gap that follows. -/
def key? (s : List Char) : Option (List String × List Char) :=
  keyParts? depthLimit s

end ApiDescription.Toml
