import RegionCapture.Text.Quoted

/-!
# Texts with stray bytes

The names of files are bytes, and a document may spell out bytes too. Nearly always they are a text
in UTF-8; a byte that is part of no character is kept as it is. Main statement: a text without stray
bytes is shown as it is (`shown_ofString`).
-/

namespace RegionCapture

/-- A character, or a byte that is part of none. -/
inductive Glyph where
  | char (c : Char)
  | byte (b : UInt8)
deriving DecidableEq, Inhabited

instance : Coe Char Glyph := ⟨Glyph.char⟩

/-- A text that may hold stray bytes. -/
abbrev RawText := List Glyph

namespace RawText

def ofString (s : String) : RawText := s.toList.map Glyph.char

instance : Coe String RawText := ⟨ofString⟩

/-! ## Showing -/

/-- What is shown of a glyph; a stray byte becomes the mark of a missing character. -/
def shownChar : Glyph → Char
  | .char c => c
  | .byte _ => Char.ofNat 0xfffd

def shown (t : RawText) : String := String.ofList (t.map shownChar)

@[simp] theorem shown_ofString (s : String) : (ofString s).shown = s := by
  simp [shown, ofString, shownChar, Function.comp_def]

/-- Whether a text has no stray bytes. -/
def isText (t : RawText) : Bool :=
  t.all fun g => match g with
    | .char _ => true
    | .byte _ => false

def escapeGlyph : Glyph → List Char
  | .char c => Text.escapeChar c
  | .byte b => '\\' :: 'x' :: Text.hexDigits 2 b.toNat

def quote (t : RawText) : String := String.ofList ('"' :: t.flatMap escapeGlyph ++ ['"'])

/-! ## Bytes -/

def glyphBytes : Glyph → List UInt8
  | .char c => String.utf8EncodeChar c
  | .byte b => [b]

def bytes (t : RawText) : List UInt8 := t.flatMap glyphBytes

/-- How many bytes the first byte of a character announces, the part of the code in it, and the
least code that is written so. -/
def lead? (b : UInt8) : Option (Nat × Nat × Nat) :=
  let n := b.toNat
  if n < 0x80 then some (1, n, 0)
  else if 0xc0 ≤ n ∧ n < 0xe0 then some (2, n - 0xc0, 0x80)
  else if 0xe0 ≤ n ∧ n < 0xf0 then some (3, n - 0xe0, 0x800)
  else if 0xf0 ≤ n ∧ n < 0xf8 then some (4, n - 0xf0, 0x10000)
  else none

/-- The part of a code in a byte after the first one. -/
def continued? (b : UInt8) : Option Nat :=
  let n := b.toNat
  if 0x80 ≤ n ∧ n < 0xc0 then some (n - 0x80) else none

/-- The character that starts with a byte, and how many bytes it takes. -/
def charAt? (b : UInt8) (rest : List UInt8) : Option (Char × Nat) := do
  let (width, first, least) ← lead? b
  let more := rest.take (width - 1)
  let n ← more.foldlM (fun n b => (continued? b).map fun k => n * 64 + k) first
  if more.length + 1 = width ∧ least ≤ n ∧ n.isValidChar then some (Char.ofNat n, width) else none

/-- The text in bytes, after those that belong to a character already. -/
def ofBytesAfter : (pass : Nat) → List UInt8 → RawText
  | _, [] => []
  | pass + 1, _ :: bs => ofBytesAfter pass bs
  | 0, b :: bs =>
    match charAt? b bs with
    | some (c, width) => .char c :: ofBytesAfter (width - 1) bs
    | none => .byte b :: ofBytesAfter 0 bs

def ofBytes (bs : List UInt8) : RawText := ofBytesAfter 0 bs

end RawText

end RegionCapture
