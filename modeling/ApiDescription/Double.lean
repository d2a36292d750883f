/-!
# Large numbers as doubles

A double has 53 significant bits, so a natural number is rounded to a multiple of a power of two, its
`unit`. What rounds to `2^1024` or more has no finite double.

* `nearest_of_lt`: a number of at most 53 bits is a double.
* `nearest_le`, `le_nearest`: rounding moves a number by at most half a unit.
-/

namespace ApiDescription.Double

/-- The distance between doubles at a natural number. -/
def unit (n : Nat) : Nat :=
  Nat.pow 2 (n.log2 - 52)

/-- The double nearest to a natural number, of two equally near ones the one whose significand is even,
as if there were no largest double. -/
def nearest (n : Nat) : Nat :=
  let below := n / unit n
  let rest := n % unit n
  if 2 * rest < unit n ∨ (2 * rest = unit n ∧ below % 2 = 0) then below * unit n
  else (below + 1) * unit n

/-- No finite double is nearest to a number of this whole part: it is at least half a unit above the
largest one. -/
def overflows (n : Nat) : Bool :=
  Nat.pow 2 1024 - Nat.pow 2 970 ≤ n

/-- No finite double is nearest to `significand * 10 ^ exponent`. Only numbers whose size leaves this
open are computed. -/
def overflowsDecimal (significand : Nat) (exponent : Int) : Bool :=
  let order := (Nat.toDigits 10 significand).length + exponent
  if significand = 0 ∨ order < 300 then false
  else if order > 320 then true
  else if exponent < 0 then overflows (significand / Nat.pow 10 (-exponent).toNat)
  else overflows (significand * Nat.pow 10 exponent.toNat)

theorem nearest_of_lt {n : Nat} (h : n < Nat.pow 2 53) : nearest n = n := by
  have hunit : unit n = 1 := by
    have hlog : n.log2 ≤ 52 := by
      by_cases h0 : n = 0
      · simp [h0]
      · exact Nat.le_of_lt_succ ((Nat.log2_lt h0).2 h)
    simp [unit, Nat.sub_eq_zero_of_le hlog]
  simp [nearest, hunit, Nat.mod_one]

theorem nearest_le (n : Nat) : 2 * nearest n ≤ 2 * n + unit n := by
  have hn := Nat.div_add_mod n (unit n)
  rw [Nat.mul_comm] at hn
  simp only [nearest]
  split
  · omega
  · next h =>
    rw [Nat.add_mul]
    omega

theorem le_nearest (n : Nat) : 2 * n ≤ 2 * nearest n + unit n := by
  have hpos : 0 < unit n := Nat.pow_pos (by decide)
  have hlt := Nat.mod_lt n hpos
  have hn := Nat.div_add_mod n (unit n)
  rw [Nat.mul_comm] at hn
  simp only [nearest]
  split
  · omega
  · rw [Nat.add_mul]
    omega

end ApiDescription.Double
