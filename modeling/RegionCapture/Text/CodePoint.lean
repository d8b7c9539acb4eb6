import RegionCapture.Text.Numeral

/-!
# Characters by their codes

Quoted texts may give a character by its code: a letter says how many hexadecimal digits follow.
-/

namespace RegionCapture.Text

/-- How many hexadecimal digits follow the letter of an escape by code. -/
def codeWidth? (letter : Char) : Option Nat := [('x', 2), ('u', 4), ('U', 8)].lookup letter

/-- The character whose code the given number of digits write; surrogates and codes beyond the last
are none. -/
def codePoint? (width : Nat) (cs : List Char) : Option Char := do
  let n ← if cs.length < width then none else numeral? 16 (cs.take width)
  if n < 0xd800 ∨ (0xe000 ≤ n ∧ n < 0x110000) then some (Char.ofNat n) else none

end RegionCapture.Text
