import RegionCapture.Text.Blank

/-!
# Places in a YAML text

A text is read from front to back by a cursor, which knows what is left and where it stands: the
structure of a YAML text hangs on lines and columns.
-/

namespace RegionCapture.Yaml

open Text (isBlank)

def isBreak (c : Char) : Bool :=
  c = '\n' || c = '\r' || c = Char.ofNat 0x85 || c = Char.ofNat 0x2028 || c = Char.ofNat 0x2029

/-- Whether a text stands at the end of a line or at its own end. -/
def atLineEnd : List Char → Bool
  | [] => true
  | c :: _ => isBreak c

/-- Whether a text stands at a blank, at the end of a line or at its own end. -/
def atGap : List Char → Bool
  | [] => true
  | c :: _ => isBlank c || isBreak c

/-- A place in a text, and what follows it. -/
structure Cursor where
  rest : List Char
  /-- how long the whole text is; no walk over it takes more steps -/
  size : Nat
  /-- how many characters lie before -/
  index : Nat := 0
  line : Nat := 0
  column : Nat := 0
  /-- the line ends since the last character that is no blank -/
  fresh : Nat := 0

namespace Cursor

def ofText (cs : List Char) : Cursor := { rest := cs, size := cs.length }

def head? (c : Cursor) : Option Char := c.rest.head?

/-- Passes over characters of one line, of which at least one is no blank. -/
def advance (c : Cursor) (n : Nat) : Cursor :=
  { c with rest := c.rest.drop n, index := c.index + n, column := c.column + n, fresh := 0 }

def passBlanks (c : Cursor) (n : Nat) : Cursor :=
  { c with rest := c.rest.drop n, index := c.index + n, column := c.column + n }

def skipBlanks (c : Cursor) : Cursor := c.passBlanks (c.rest.takeWhile isBlank).length

/-- The characters up to one that a test refuses, and the place of that one. The test refuses ends
of lines. -/
def run (p : Char → Bool) (c : Cursor) : List Char × Cursor :=
  let cs := c.rest.takeWhile p
  let after := c.passBlanks cs.length
  (cs, if cs.all isBlank then after else { after with fresh := 0 })

/-- The line after a line end that takes `n` characters. -/
def newLine (c : Cursor) (n : Nat) : Cursor :=
  { c with
    rest := c.rest.drop n, index := c.index + n, line := c.line + 1, column := 0,
    fresh := c.fresh + 1 }

/-- The line end at a place, as a text keeps it, and the line after it. Only the separators of lines
and of paragraphs are kept as they are. -/
def lineEnd? (c : Cursor) : Option (Char × Cursor) :=
  match c.rest with
  | '\r' :: '\n' :: _ => some ('\n', c.newLine 2)
  | b :: _ =>
    if b = Char.ofNat 0x2028 || b = Char.ofNat 0x2029 then some (b, c.newLine 1)
    else if isBreak b then some ('\n', c.newLine 1)
    else none
  | [] => none

/-- The place after the line end, if there is one. -/
def skipLineEnd (c : Cursor) : Cursor :=
  match c.lineEnd? with
  | some (_, c) => c
  | none => c

def toLineEnd (c : Cursor) : Cursor := (c.run fun x => !isBreak x).2

/-- Whether a line starts here with a mark between documents. -/
def atMark (c : Cursor) (mark : String) : Bool :=
  c.column = 0 && c.rest.take 3 = mark.toList && atGap (c.rest.drop 3)

def atAnyMark (c : Cursor) : Bool := c.atMark "---" || c.atMark "..."

/-! ## Comments -/

/-- How far the look ahead for a comment goes. -/
def lookAhead : Nat := 512

/-- Passes over blanks and simple line ends. -/
def passLines : (n : Nat) → Cursor → Cursor
  | 0, c => c
  | n + 1, c =>
    match c.rest with
    | [] => c
    | x :: after =>
      let blank := isBlank x || (x = '\r' && after.head? = some '\n')
      passLines n (if blank then c.passBlanks 1 else c.newLine 1)

/-- Passes over a comment, and over those in the lines below it with nothing but blanks before
them. -/
def skipComments : (fuel : Nat) → Cursor → Cursor
  | 0, c => c
  | fuel + 1, c =>
    let c := c.toLineEnd
    let ahead := (c.rest.takeWhile fun x => isBlank x || x = '\n' || x = '\r').length
    if ahead < lookAhead && (c.rest.drop ahead).head? = some '#'
      then skipComments fuel (passLines ahead c) else c

/-- Passes over a comment at the end of a line that holds something else. -/
def skipLineComment (c : Cursor) : Cursor :=
  let blanks := (c.rest.takeWhile isBlank).length
  if c.fresh = 0 && blanks < lookAhead && (c.rest.drop blanks).head? = some '#'
    then c.toLineEnd else c

end Cursor

end RegionCapture.Yaml
