import RegionCapture.Options.Yaml.Cursor
import RegionCapture.Options.Yaml.Token
import RegionCapture.Text.Numeral

/-!
# Tags, anchors and directives

A tag says what a node is, an anchor gives it a name, and a directive in front of a document says
which version of the format it has or which tags a handle stands for.
-/

namespace RegionCapture.Yaml

open Text (isBlank isDigit)

def isNameChar (c : Char) : Bool :=
  isDigit c || ('A' ≤ c && c ≤ 'Z') || ('a' ≤ c && c ≤ 'z') || c = '_' || c = '-'

/-- The name of an anchor, after its mark. -/
def anchorName (c : Cursor) : Option (String × Cursor) :=
  let (name, c) := (c.advance 1).run isNameChar
  let ends := atGap c.rest || c.head?.any fun x =>
    ['?', ':', ',', ']', '}', '%', '@', '\x60'].contains x
  if name.isEmpty || !ends then none else some (String.ofList name, c)

/-! ## Tags -/

def isTagChar (c : Char) : Bool :=
  isNameChar c
    || [';', '/', '?', ':', '@', '&', '=', '+', '$', ',', '.', '!', '~', '*', '\'', '(', ')', '[',
        ']', '%'].contains c

/-- How many bytes a character takes whose first byte is given. -/
def byteCount? (b : Nat) : Option Nat :=
  if b < 0x80 then some 1
  else if 0xc0 ≤ b ∧ b < 0xe0 then some 2
  else if 0xe0 ≤ b ∧ b < 0xf0 then some 3
  else if 0xf0 ≤ b ∧ b < 0xf8 then some 4
  else none

/-- A byte that is written as a percent sign and two digits. -/
def tagByte? : List Char → Option Nat
  | '%' :: a :: b :: _ => Text.numeral? 16 [a, b]
  | _ => none

/-- The bytes after the first one of a character. -/
def tagBytes : (n : Nat) → List Char → Option (List Char)
  | 0, _ => some []
  | n + 1, cs => do
    let b ← tagByte? cs
    if 0x80 ≤ b ∧ b < 0xc0 then return Char.ofNat b :: (← tagBytes n (cs.drop 3)) else none

/-- The characters of a tag, and how many characters write them. Bytes beyond the first 128 are kept
apart: no known tag has them. -/
def tagChars : (fuel : Nat) → List Char → Option (List Char × Nat)
  | 0, _ => none
  | _, [] => some ([], 0)
  | fuel + 1, c :: cs =>
    if c = '%' then do
      let b ← tagByte? (c :: cs)
      let more ← tagBytes ((← byteCount? b) - 1) (cs.drop 2)
      let width := 3 * (more.length + 1)
      let (rest, n) ← tagChars fuel ((c :: cs).drop width)
      return (Char.ofNat b :: more ++ rest, width + n)
    else if isTagChar c then do
      let (rest, n) ← tagChars fuel cs
      return (c :: rest, n + 1)
    else some ([], 0)

/-- Reads a tag or a part of one, which has a character at least. -/
def tagText (c : Cursor) : Option (List Char × Cursor) := do
  let (cs, n) ← tagChars (c.size + 1) c.rest
  if n = 0 then none else return (cs, c.advance n)

/-- The handle that a tag may start with: a name between exclamation marks, the second of which may
be missing. -/
def tagHandle (c : Cursor) : List Char × Cursor :=
  let (name, c) := (c.advance 1).run isNameChar
  if c.head? = some '!' then ('!' :: name ++ ['!'], c.advance 1) else ('!' :: name, c)

/-- A tag: its handle and the rest of it. A tag in angle brackets has no handle, and neither has a
lone exclamation mark. -/
def tagToken (c : Cursor) : Option (Token × Cursor) := do
  let (t, c) ←
    if (c.rest.drop 1).head? = some '<' then do
      let (uri, c) ← tagText (c.advance 2)
      if c.head? = some '>' then some (Token.tag "" (String.ofList uri), c.advance 1) else none
    else
      let (handle, c) := tagHandle c
      if 1 < handle.length && handle.getLast? = some '!' then
        (tagText c).map fun (suffix, c) =>
          (Token.tag (String.ofList handle) (String.ofList suffix), c)
      else do
        let (more, n) ← tagChars (c.size + 1) c.rest
        let suffix := handle.drop 1 ++ more
        some (if suffix.isEmpty then .tag "" "!" else .tag "!" (String.ofList suffix), c.advance n)
  if atGap c.rest then some (t, c) else none

/-! ## Directives -/

/-- A number of one or two digits. -/
def versionNumber (c : Cursor) : Option (Nat × Cursor) := do
  let (ds, c) := c.run isDigit
  if 2 < ds.length then none else return (← Text.numeral? 10 ds, c)

/-- What a directive says, after its name. -/
def directiveValue (name : String) (c : Cursor) : Option (Token × Cursor) :=
  match name with
  | "YAML" => do
    let (major, c) ← versionNumber c.skipBlanks
    if c.head? ≠ some '.' then none
    else
      let (minor, c) ← versionNumber (c.advance 1)
      return (.version major minor, c)
  | "TAG" => do
    let c := c.skipBlanks
    if c.head? ≠ some '!' then none
    else
      let (handle, c) := tagHandle c
      if (handle ≠ ['!'] && handle.getLast? ≠ some '!') || !c.head?.any isBlank then none
      else
        let (stem, c) ← tagText c.skipBlanks
        if atGap c.rest then return (.handle (String.ofList handle) (String.ofList stem), c)
        else none
  | _ => none

/-- A directive and its line. -/
def directive (c : Cursor) : Option (Token × Cursor) := do
  let (name, c) := (c.advance 1).run isNameChar
  if name.isEmpty || !atGap c.rest then none
  else
    let (t, c) ← directiveValue (String.ofList name) c
    let c := c.skipBlanks
    let c := if c.head? = some '#' then c.toLineEnd else c
    if atLineEnd c.rest then return (t, c.skipLineEnd) else none

end RegionCapture.Yaml
