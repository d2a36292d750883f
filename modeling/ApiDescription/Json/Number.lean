import ApiDescription.Double
import ApiDescription.Json.Basic
import ApiDescription.Text.Blank

/-!
# Numbers of JSON text

`Json.ofNumber?` reads the spelling of a number. A spelling without fraction, exponent and minus
zero whose value lies between `-2^63` and `2^64 - 1` is an integer. Any other spelling stands for a
double: it keeps its text, unless it is too large for one.

Whether it is too large is settled in the arithmetic of doubles, from the digits that fit into a
significand of 64 bits (`Spelling.scientific`, `Scientific.isTooLarge`). So of two spellings of a number
next to the largest double one may be too large and the other not.
-/

namespace ApiDescription.Json

open Text

/-- The parts of a number's spelling. -/
structure Spelling where
  negative : Bool
  /-- The digits before the point. -/
  whole : List Char
  /-- The digits after the point, if there is one. -/
  fraction : Option (List Char)
  /-- The exponent, if there is one. -/
  exponent : Option Int

/-- The digits at the front, at least one, and what follows them. -/
def digits? (s : List Char) : Option (List Char × List Char) :=
  let digits := s.takeWhile isDigit
  if digits = [] then none else some (digits, s.dropWhile isDigit)

/-- An exponent without its letter: an optional sign and digits, with nothing behind. -/
def exponent? (s : List Char) : Option Int :=
  let (negative, s) := match s with
    | '-' :: rest => (true, rest)
    | '+' :: rest => (false, rest)
    | rest => (false, rest)
  match digits? s with
  | some (digits, []) =>
    let n : Int := digitsValue digits
    some (if negative then -n else n)
  | _ => none

/-- What may follow the digits before the point. -/
def tail? (s : List Char) : Option (Option (List Char) × Option Int) :=
  match s with
  | [] => some (none, none)
  | '.' :: rest => do
    let (fraction, rest) ← digits? rest
    match rest with
    | [] => some (some fraction, none)
    | c :: rest => if c == 'e' || c == 'E' then (some fraction, some ·) <$> exponent? rest else none
  | c :: rest => if c == 'e' || c == 'E' then (none, some ·) <$> exponent? rest else none

/-- The parts of a spelling that obeys the grammar of numbers: no leading zero, no bare point. -/
def Spelling.parse? (literal : List Char) : Option Spelling := do
  let (negative, rest) := match literal with
    | '-' :: rest => (true, rest)
    | rest => (false, rest)
  let (whole, rest) ← digits? rest
  if whole.head? = some '0' ∧ whole.length ≠ 1 then none
  else
    let (fraction, exponent) ← tail? rest
    some { negative, whole, fraction, exponent }

/-! ## The size of a number -/

/-- The decimal number `significand * 10 ^ exponent`. -/
structure Scientific where
  significand : Nat
  exponent : Int

/-- Appends digits to a number for as long as it stays below `2^64`; gives the digits left over too. -/
def appendDigits (n : Nat) : List Char → Nat × List Char
  | [] => (n, [])
  | digit :: rest =>
    let next := 10 * n + digitsValue [digit]
    if next < UInt64.size then appendDigits next rest else (n, digit :: rest)

/-- The number by which a spelling is measured. Its significand has 64 bits: of the digits before the
point those that do not fit count as zeros, of the digits after it those that do not fit are left out. -/
def Spelling.scientific (s : Spelling) : Scientific :=
  let fraction := s.fraction.getD []
  let (significand, zeros) := appendDigits 0 s.whole
  let (significand, omitted) := appendDigits significand fraction
  let shift : Int := zeros.length - (fraction.length - omitted.length)
  { significand, exponent := s.exponent.getD 0 + shift }

/-- The product of the significand and the power of ten, both rounded to doubles, has no finite double.
A power of ten beyond the largest one that is a double is too large in any product. -/
def Scientific.isTooLarge (s : Scientific) : Bool :=
  if s.significand = 0 ∨ s.exponent < 0 then false
  else if s.exponent > 308 then true
  else Double.overflows
    (Double.nearest s.significand * Double.nearest (Nat.pow 10 s.exponent.toNat))

/-- The value that a number's spelling stands for. -/
def ofNumber? (literal : List Char) : Option Json := do
  let s ← Spelling.parse? literal
  let real : Json :=
    if s.scientific.isTooLarge then .unreadable else .real (String.ofList literal)
  let n := digitsValue s.whole
  if s.fraction.isSome ∨ s.exponent.isSome then some real
  else if s.negative then
    some (if 0 < n ∧ Int64.minValue.toInt ≤ -n then .int (-n) else real)
  else some (if n < UInt64.size then .int n else real)

end ApiDescription.Json
