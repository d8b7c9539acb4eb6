/-!
# Bytes as letters

Bytes may be written as text, three of them as four of 64 characters; padding fills the last four.
Line ends between the characters do not count.
-/

namespace RegionCapture.Text

/-! ## Reading -/

/-- The six bits that a character stands for. -/
def sixBits? (c : Char) : Option Nat :=
  let n := c.toNat
  if 'A' ≤ c ∧ c ≤ 'Z' then some (n - 65)
  else if 'a' ≤ c ∧ c ≤ 'z' then some (n - 71)
  else if '0' ≤ c ∧ c ≤ '9' then some (n + 4)
  else if c = '+' then some 62
  else if c = '/' then some 63
  else none

/-- The bytes of a number of 24 bits, of which the first `count` are wanted. -/
def threeBytes (n count : Nat) : List UInt8 :=
  [(n / 65536).toUInt8, (n / 256).toUInt8, n.toUInt8].take count

/-- The bytes that four characters at a time stand for. -/
def decodeQuads : List Char → Option (List UInt8)
  | [] => some []
  | [a, b, '=', '='] => do
    let (a, b) := (← sixBits? a, ← sixBits? b)
    return threeBytes (a * 262144 + b * 4096) 1
  | [a, b, c, '='] => do
    let (a, b, c) := (← sixBits? a, ← sixBits? b, ← sixBits? c)
    return threeBytes (a * 262144 + b * 4096 + c * 64) 2
  | a :: b :: c :: d :: rest => do
    let (a, b, c, d) := (← sixBits? a, ← sixBits? b, ← sixBits? c, ← sixBits? d)
    return threeBytes (a * 262144 + b * 4096 + c * 64 + d) 3 ++ (← decodeQuads rest)
  | _ => none

def decodeBase64? (s : String) : Option (List UInt8) :=
  decodeQuads (s.toList.filter fun c => c ≠ '\n' && c ≠ '\r')

/-! ## Writing -/

/-- The character that stands for six bits. -/
def sixBitsChar (n : Nat) : Char :=
  if n < 26 then Char.ofNat (n + 65)
  else if n < 52 then Char.ofNat (n + 71)
  else if n < 62 then Char.ofNat (n - 4)
  else if n = 62 then '+'
  else '/'

/-- The four characters for a number of 24 bits. -/
def quad (n : Nat) : List Char :=
  [n / 262144, n / 4096, n / 64, n].map fun k => sixBitsChar (k % 64)

/-- The characters that stand for bytes. -/
def encodeBase64 : List UInt8 → List Char
  | [] => []
  | [a] => (quad (a.toNat * 65536)).take 2 ++ ['=', '=']
  | [a, b] => (quad (a.toNat * 65536 + b.toNat * 256)).take 3 ++ ['=']
  | a :: b :: c :: rest => quad (a.toNat * 65536 + b.toNat * 256 + c.toNat) ++ encodeBase64 rest

end RegionCapture.Text
