import RegionCapture.Text.Numeral

/-!
# Run identities

Every check of a unit has an identity of 128 bits, which its exported signatures carry. It is
written as thirty-two hexadecimal digits in five groups.
-/

namespace RegionCapture

/-- The identity of a run. -/
structure RunId where
  bits : BitVec 128
deriving DecidableEq

namespace RunId

def nil : RunId := ⟨0⟩

instance : Inhabited RunId := ⟨nil⟩

def ofNat (n : Nat) : RunId := ⟨BitVec.ofNat 128 n⟩

/-- The identity in lower case, in groups of eight, four, four, four and twelve digits. -/
def text (id : RunId) : String :=
  let ds := Text.hexDigits 32 id.bits.toNat
  let group (start size : Nat) : List Char := (ds.drop start).take size
  String.ofList (group 0 8 ++ '-' :: group 8 4 ++ '-' :: group 12 4 ++ '-' :: group 16 4 ++ '-' ::
    group 20 12)

def ofDigits? (ds : List Char) : Option RunId := (Text.numeral? 16 ds).map ofNat

/-- The identity at the start of a text in five groups with dashes between them. -/
def ofGroups? (cs : List Char) : Option RunId :=
  match cs.drop 8, cs.drop 13, cs.drop 18, cs.drop 23 with
  | '-' :: _, '-' :: _, '-' :: _, '-' :: _ =>
    ofDigits? (cs.take 8 ++ (cs.drop 9).take 4 ++ (cs.drop 14).take 4 ++ (cs.drop 19).take 4
      ++ (cs.drop 24).take 12)
  | _, _, _, _ => none

/-- The bytes of a text, each as a character. -/
def byteChars (s : String) : List Char := s.toUTF8.toList.map fun b => Char.ofNat b.toNat

/-- Reads an identity: five groups, possibly after `urn:uuid:` in any case or between two other
characters, or thirty-two digits without dashes. The form is told by the number of bytes. -/
def parse? (s : String) : Option RunId :=
  let cs := byteChars s
  match cs.length with
  | 36 => ofGroups? cs
  | 45 => if (cs.take 9).map Char.toLower = "urn:uuid:".toList then ofGroups? (cs.drop 9) else none
  | 38 => ofGroups? (cs.drop 1)
  | 32 => ofDigits? cs
  | _ => none

end RunId

end RegionCapture
