/-!
# Decimal numbers as doubles

A decimal number stands for the double nearest to it, a number with 53 binary digits at most. Ties
go to the even neighbour, and a number beyond the largest double stands for none. Main statement:
rounding a quotient errs by half a unit at most (`two_mul_roundDiv_le`, `two_mul_le_roundDiv`).
-/

namespace RegionCapture.Text

/-! ## Rounding -/

/-- The whole number nearest to a quotient; a half goes to the even one. -/
def roundDiv (num den : Nat) : Nat :=
  let q := num / den
  let r := num % den
  if den < 2 * r ∨ (2 * r = den ∧ q % 2 = 1) then q + 1 else q

/-- Rounding goes up by half a unit at most. -/
theorem two_mul_roundDiv_le (num den : Nat) : 2 * (den * roundDiv num den) ≤ 2 * num + den := by
  have h := Nat.div_add_mod num den
  simp only [roundDiv]
  split
  · rw [Nat.mul_add]
    omega
  · omega

/-- Rounding goes down by half a unit at most. -/
theorem two_mul_le_roundDiv (num : Nat) {den : Nat} (hd : 0 < den) :
    2 * num ≤ 2 * (den * roundDiv num den) + den := by
  have h := Nat.div_add_mod num den
  have hr := Nat.mod_lt num hd
  simp only [roundDiv]
  split
  · rw [Nat.mul_add]
    omega
  · omega

/-! ## Doubles -/

/-- The double `mantissa · 2 ^ exponent`, without sign. -/
structure Double where
  mantissa : Nat
  exponent : Int
deriving DecidableEq

namespace Double

/-- How many binary digits a mantissa has at most. -/
def precision : Nat := 53

def leastExponent : Int := -1074

/-- The largest exponent of a mantissa of full length. -/
def largestExponent : Int := 971

def scale (num den : Nat) (k : Int) : Nat × Nat :=
  if 0 ≤ k then (num, den <<< k.natAbs) else (num <<< k.natAbs, den)

/-- The exponent with which the mantissa of a quotient gets its full length. -/
def exponentOf (num den : Nat) : Int :=
  let low : Int := num.log2 - den.log2 - precision
  let (n, d) := scale num den low
  if 1 <<< precision ≤ n / d then low + 1 else low

/-- The double nearest to a quotient. -/
def nearest? (num den : Nat) : Option Double :=
  if num = 0 then some ⟨0, 0⟩
  else
    let k := max leastExponent (exponentOf num den)
    let (n, d) := scale num den k
    let m := roundDiv n d
    if largestExponent < k ∨ (k = largestExponent ∧ m = 1 <<< precision) then none else some ⟨m, k⟩

/-- The double nearest to `digits · 10 ^ e`. Exponents that are far out need no computation. -/
def ofDecimal? (digits : Nat) (e : Int) : Option Double :=
  if digits = 0 ∨ e < -(400 + digits.log2 : Int) then some ⟨0, 0⟩
  else if 400 < e then none
  else if 0 ≤ e then nearest? (digits * Nat.pow 10 e.natAbs) 1
  else nearest? digits (Nat.pow 10 e.natAbs)

def whole (x : Double) : Nat :=
  if 0 ≤ x.exponent then x.mantissa <<< x.exponent.natAbs else x.mantissa >>> x.exponent.natAbs

end Double

end RegionCapture.Text
