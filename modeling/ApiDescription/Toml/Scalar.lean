import ApiDescription.Double
import ApiDescription.Toml.Quoted

/-!
# Plain values of TOML

Which runs of characters are a Boolean, a number, a date or a time. No value is kept, since no setting
takes one; but an integer must have 64 bits, a positive number must not be too large for a double, and
a date must exist.
-/

namespace ApiDescription.Toml

open Text

/-- Digits of a base, separated by single underscores. -/
def areDigits (isDigitOfBase : Char → Bool) : List Char → Bool
  | [] => false
  | [c] => isDigitOfBase c
  | c :: '_' :: rest => isDigitOfBase c && areDigits isDigitOfBase rest
  | c :: rest => isDigitOfBase c && areDigits isDigitOfBase rest

/-- The text without a sign at its beginning. -/
def skipSign : List Char → List Char
  | '+' :: rest | '-' :: rest => rest
  | s => s

/-- Decimal digits without a leading zero. -/
def isWhole (s : List Char) : Bool :=
  areDigits isDigit s && (s.head? != some '0' || s.length == 1)

/-- The number that digits of a base denote, with its sign, is one of 64 bits. -/
def fits (base : Nat) (negative : Bool) (digits : List Char) : Bool :=
  let n := (digits.filterMap hexValue?).foldl (fun n d => base * n + d) 0
  let value : Int := if negative then -n else n
  Int64.minValue.toInt ≤ value && value ≤ Int64.maxValue.toInt

/-- An integer in one of the four bases. -/
def isInteger (s : List Char) : Bool :=
  match s with
  | '0' :: 'x' :: rest => areDigits (fun c => (hexValue? c).isSome) rest && fits 16 false rest
  | '0' :: 'o' :: rest => areDigits (fun c => '0' ≤ c && c ≤ '7') rest && fits 8 false rest
  | '0' :: 'b' :: rest => areDigits (fun c => c == '0' || c == '1') rest && fits 2 false rest
  | s => isWhole (skipSign s) && fits 10 (s.head? == some '-') (skipSign s)

/-- The exponent of a fraction, with its letter, or nothing. -/
def isExponent : List Char → Bool
  | [] => true
  | c :: rest => (c == 'e' || c == 'E') && areDigits isDigit (skipSign rest)

/-- The number that an exponent with its letter denotes, or zero for nothing. -/
def exponentValue (s : List Char) : Int :=
  let s := s.drop 1
  let n : Int := digitsValue (s.filter isDigit)
  if s.head? = some '-' then -n else n

/-- A number with a fraction, an exponent or both, or an infinity, or no number. Of the numbers too large
for a double only the negative ones are admitted. -/
def isFraction (s : List Char) : Bool :=
  let negative := s.head? == some '-'
  let s := skipSign s
  let inWhole := fun c => isDigit c || c == '_'
  let whole := s.takeWhile inWhole
  let isDecimal := fun fraction exponent =>
    isWhole whole && isExponent exponent &&
      (negative || !Double.overflowsDecimal
        (digitsValue ((whole ++ fraction).filter isDigit))
        (exponentValue exponent - (fraction.filter isDigit).length))
  match s.dropWhile inWhole with
  | '.' :: rest =>
    let fraction := rest.takeWhile inWhole
    areDigits isDigit fraction && isDecimal fraction (rest.dropWhile inWhole)
  | c :: rest => isDecimal [] (c :: rest) || s = "inf".toList || s = "nan".toList
  | [] => false

/-- The number that exactly two digits denote. -/
def two? : List Char → Option Nat
  | [a, b] => if isDigit a && isDigit b then some (digitsValue [a, b]) else none
  | _ => none

/-- Two digits that denote a number of a range. -/
def isTwo (least most : Nat) (s : List Char) : Bool :=
  (two? s).any fun n => least ≤ n && n ≤ most

/-- The number of days of a month. -/
def daysOf (year month : Nat) : Nat :=
  if month = 2 then if year % 4 = 0 ∧ (year % 100 ≠ 0 ∨ year % 400 = 0) then 29 else 28
  else if month = 4 ∨ month = 6 ∨ month = 9 ∨ month = 11 then 30 else 31

/-- A date `YYYY-MM-DD`. -/
def isDate (s : List Char) : Bool :=
  match s with
  | [a, b, c, d, '-', e, f, '-', g, h] =>
    [a, b, c, d].all isDigit && isTwo 1 12 [e, f] &&
      isTwo 1 (daysOf (digitsValue [a, b, c, d]) (digitsValue [e, f])) [g, h]
  | _ => false

/-- A time `HH:MM:SS`, perhaps with a fraction of a second. -/
def isTime (s : List Char) : Bool :=
  match s with
  | a :: b :: ':' :: c :: d :: ':' :: e :: f :: rest =>
    isTwo 0 23 [a, b] && isTwo 0 59 [c, d] && isTwo 0 60 [e, f] &&
      match rest with
      | [] => true
      | '.' :: digits => !digits.isEmpty && digits.all isDigit
      | _ => false
  | _ => false

/-- The distance of a time from universal time, or nothing. -/
def isOffset (s : List Char) : Bool :=
  match s with
  | [] | ['Z'] | ['z'] => true
  | [sign, a, b, ':', c, d] =>
    (sign == '+' || sign == '-') && isTwo 0 23 [a, b] && isTwo 0 59 [c, d]
  | _ => false

/-- A date, a time, or a date with a time. -/
def isMoment (s : List Char) : Bool :=
  isTime s || isDate s ||
    match s.drop 10 with
    | mark :: rest =>
      let inTime := fun c => isDigit c || c == ':' || c == '.'
      (mark == 'T' || mark == 't' || mark == ' ') && isDate (s.take 10) &&
        isTime (rest.takeWhile inTime) && isOffset (rest.dropWhile inTime)
    | [] => false

/-- A character of a plain value. -/
def isScalarChar (c : Char) : Bool :=
  isBare c || c == '+' || c == '.' || c == ':'

/-- The text behind a plain value. A date may be parted from its time by a space. -/
def scalar? (s : List Char) : Option (List Char) :=
  let run := s.takeWhile isScalarChar
  let rest := s.dropWhile isScalarChar
  let isPlainValue := fun s =>
    s = "true".toList || s = "false".toList || isInteger s || isFraction s || isMoment s
  match isDate run, rest with
  | true, ' ' :: a :: behind =>
    let time := (a :: behind).takeWhile isScalarChar
    if isDigit a then
      if isMoment (run ++ ' ' :: time) then some ((a :: behind).dropWhile isScalarChar) else none
    else some rest
  | _, _ => if isPlainValue run then some rest else none

end ApiDescription.Toml
