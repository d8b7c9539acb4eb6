import RegionCapture.Options.Yaml.Cursor
import RegionCapture.Text.CodePoint

/-!
# The texts of scalars

A scalar is written without quotes, in single or double quotes, or as a block of lines. Words on one
line keep the blanks between them; where a scalar goes on in the next line, the line end is folded:
it becomes a space, or is dropped if more line ends follow.
-/

namespace RegionCapture.Yaml

open Text (codePoint? codeWidth? isBlank)

/-! ## Gaps between words -/

/-- What stands between two words of a scalar. -/
inductive Gap where
  /-- blanks of one line -/
  | blanks (cs : List Char)
  /-- line ends; the blanks around them do not count -/
  | lines (ends : List Char)
  /-- line ends after one that is escaped -/
  | joined (ends : List Char)

namespace Gap

/-- What a gap adds to the text of a scalar. -/
def text : Gap → List Char
  | blanks cs => cs
  | lines ['\n'] => [' ']
  | lines ('\n' :: more) => more
  | lines ends => ends
  | joined ends => ends

def endsLine : Gap → Bool
  | blanks _ => false
  | _ => true

/-- A gap with blanks after it: those after a line end do not count. -/
def addBlanks (more : List Char) : Gap → Gap
  | blanks cs => blanks (cs ++ more)
  | g => g

/-- A gap with a line end after it. -/
def addEnd (e : Char) : Gap → Gap
  | blanks _ => lines [e]
  | lines ends => lines (ends ++ [e])
  | joined ends => joined (ends ++ [e])

end Gap

/-- Reads on in a gap. A line whose indentation is short of the floor has no tab in it. -/
def readGap (floor : Nat) : (fuel : Nat) → Gap → Cursor → Option (Gap × Cursor)
  | 0, _, _ => none
  | fuel + 1, g, c =>
    let (cs, next) := c.run isBlank
    if g.endsLine && (cs.take (floor - c.column)).contains '\t' then none
    else
      match next.lineEnd? with
      | none => some (g.addBlanks cs, next)
      | some (e, next) => readGap floor fuel (g.addEnd e) next

/-! ## Scalars without quotes -/

/-- The characters that end a scalar without quotes inside a flow collection. -/
def isFlowMark (c : Char) : Bool := [',', '?', '[', ']', '{', '}'].contains c

/-- The first word of a text as a part of a scalar without quotes; a colon ends it where a value may
follow. -/
def plainWord (flow : Bool) : List Char → List Char
  | [] => []
  | c :: rest =>
    if atGap (c :: rest) || (c = ':' && atGap rest) || (flow && isFlowMark c) then []
    else c :: plainWord flow rest

/-- Reads on in a scalar without quotes: a gap, if there is one, and what comes after it. Also tells
whether the last gap ends a line. Outside of flow collections, a line has to be indented to the
floor. -/
def plainFrom (flow : Bool) (floor : Nat) :
    (fuel : Nat) → Gap → Cursor → Option (List Char × Bool × Cursor)
  | 0, _, _ => none
  | fuel + 1, g, c =>
    let word := plainWord flow c.rest
    if c.atAnyMark || c.head? = some '#' || word.isEmpty then some ([], g.endsLine, c)
    else
      let c := c.advance word.length
      if c.rest.isEmpty || !atGap c.rest then some (g.text ++ word, false, c)
      else do
        let (next, c) ← readGap floor (c.size + 1) (.blanks []) c
        if !flow && c.column < floor then return (g.text ++ word, next.endsLine, c)
        else
          let (more, ended, c) ← plainFrom flow floor fuel next c
          return (g.text ++ word ++ more, ended, c)

/-- A scalar without quotes, and whether it ends with its line. -/
def plainScalar (flow : Bool) (floor : Nat) (c : Cursor) : Option (String × Bool × Cursor) :=
  (plainFrom flow floor (c.size + 1) (.blanks []) c).map fun (cs, ended, c) =>
    (String.ofList cs, ended, c)

/-! ## Scalars in quotes -/

/-- The character that a one-letter escape stands for. -/
def escape? (c : Char) : Option Char :=
  [('0', 0x00), ('a', 0x07), ('b', 0x08), ('t', 0x09), ('\t', 0x09), ('n', 0x0a), ('v', 0x0b),
    ('f', 0x0c), ('r', 0x0d), ('e', 0x1b), (' ', 0x20), ('"', 0x22), ('\'', 0x27), ('\\', 0x5c),
    ('N', 0x85), ('_', 0xa0),
   ('L', 0x2028), ('P', 0x2029)].lookup c |>.map Char.ofNat

/-- The character that an escape stands for, and how many characters the escape has after its
backslash. -/
def escaped? : List Char → Option (Char × Nat)
  | [] => none
  | e :: rest =>
    match codeWidth? e with
    | some width => (codePoint? width rest).map (·, width + 1)
    | none => (escape? e).map (·, 1)

/-- Reads on in a word in quotes, up to a gap or the closing quote, and tells whether the gap starts
with an escaped line end. A single quote is written twice; only double quotes have escapes. -/
def quotedWord (quote : Char) : (fuel : Nat) → Cursor → Option (List Char × Bool × Cursor)
  | 0, _ => none
  | fuel + 1, c =>
    let add (x : Char) (n : Nat) : Option (List Char × Bool × Cursor) :=
      (quotedWord quote fuel (c.advance n)).map fun (cs, joined, c) => (x :: cs, joined, c)
    match c.rest with
    | [] => some ([], false, c)
    | x :: rest =>
      if atGap (x :: rest) then some ([], false, c)
      else if x = quote then
        if quote = '\'' && rest.head? = some '\'' then add '\'' 2 else some ([], false, c)
      else if x = '\\' && quote = '"' then
        if !rest.isEmpty && atLineEnd rest then some ([], true, (c.advance 1).skipLineEnd)
        else (escaped? rest).bind fun (e, n) => add e (n + 1)
      else add x 1

/-- Reads on in a scalar in quotes, and over its closing quote. No line of it is a mark between
documents. -/
def quotedFrom (quote : Char) : (fuel : Nat) → Cursor → Option (List Char × Cursor)
  | 0, _ => none
  | fuel + 1, c =>
    if c.atAnyMark || c.rest.isEmpty then none
    else do
      let (word, joined, c) ← quotedWord quote (c.size + 1) c
      if c.head? = some quote then return (word, c.advance 1)
      else
        let (g, c) ← readGap 0 (c.size + 1) (if joined then .joined [] else .blanks []) c
        let (more, c) ← quotedFrom quote fuel c
        return (word ++ g.text ++ more, c)

def quotedScalar (quote : Char) (c : Cursor) : Option (String × Cursor) :=
  (quotedFrom quote (c.size + 1) (c.advance 1)).map fun (cs, c) => (String.ofList cs, c)

/-! ## Blocks of lines -/

/-- Which line ends at the end of a block count. -/
inductive Chomp where
  /-- the first one -/
  | clip
  /-- none -/
  | strip
  /-- all -/
  | keep
deriving DecidableEq

/-- What a character says about the line ends at the end. -/
def chomp? (c : Char) : Option Chomp := [('+', Chomp.keep), ('-', Chomp.strip)].lookup c

/-- The head of a block: the line ends that count, the indentation if it is given, and how many
characters say so. -/
def blockHead : List Char → Option (Chomp × Nat × Nat)
  | [] => some (.clip, 0, 0)
  | c :: rest =>
    let digit (c : Char) : Option Nat := Text.digit? 10 c
    match chomp? c, digit c with
    | some chomp, _ =>
      match rest.head?.bind digit with
      | some 0 => none
      | some n => some (chomp, n, 2)
      | none => some (chomp, 0, 1)
    | none, some 0 => none
    | none, some n =>
      match rest.head?.bind chomp? with
      | some chomp => some (chomp, n, 2)
      | none => some (.clip, n, 1)
    | none, none => some (.clip, 0, 0)

/-- Passes over the indentation of a line, and over empty lines before it: their line ends, and how
far one of the lines is indented at most. Without a known indentation all spaces count to it; there
is no tab in it. -/
def blockIndent (indent : Option Nat) :
    (fuel : Nat) → (widest : Nat) → Cursor → Option (List Char × Nat × Cursor)
  | 0, _, _ => none
  | fuel + 1, widest, c =>
    let spaces := (c.rest.takeWhile (· = ' ')).length
    let c := c.passBlanks (match indent with
      | some n => min spaces (n - c.column)
      | none => spaces)
    let widest := max widest c.column
    if (indent.all fun n => c.column < n) && c.head? = some '\t' then none
    else
      match c.lineEnd? with
      | none => some ([], widest, c)
      | some (e, c) =>
        (blockIndent indent fuel widest c).map fun (ends, widest, c) => (e :: ends, widest, c)

/-- The line end between two lines of a block and those of the empty lines after it. Folding makes
one between lines that start with no blank a space, and drops it before others. -/
def blockGap (folds : Bool) (first : List Char) (more : List Char) : List Char :=
  if folds && first = ['\n'] then (if more.isEmpty then [' '] else more) else first ++ more

/-- Reads on in a block, with the line ends that are left open and whether the last line starts with
a blank. -/
def blockFrom (literal : Bool) (chomp : Chomp) (indent : Nat) :
    (fuel : Nat) → (first more : List Char) → (indented : Bool) → Cursor →
    Option (List Char × Cursor)
  | 0, _, _, _, _ => none
  | fuel + 1, first, more, indented, c =>
    if c.column = indent && !c.rest.isEmpty then do
      let blank := c.head?.any isBlank
      let gap := blockGap (!literal && !indented && !blank) first more
      let (cs, c) := c.run fun x => !isBreak x
      let (first, c) := match c.lineEnd? with
        | some (e, c) => ([e], c)
        | none => ([], c)
      let (more, _, c) ← blockIndent (some indent) (c.size + 1) 0 c
      let (text, c) ← blockFrom literal chomp indent fuel first more blank c
      return (gap ++ cs ++ text, c)
    else
      return ((if chomp = .strip then [] else first) ++ (if chomp = .keep then more else []), c)

/-- A block of lines below the given floor, after the mark that says whether its lines are kept or
folded. -/
def blockScalar (literal : Bool) (floor : Nat) (c : Cursor) : Option (String × Cursor) := do
  let c := c.advance 1
  let (chomp, given, n) ← blockHead c.rest
  let c := if n = 0 then c.skipBlanks else (c.advance n).skipBlanks
  let c := if c.head? = some '#' then c.toLineEnd else c
  if !atLineEnd c.rest then none
  else
    let c := c.skipLineEnd
    let known := if given = 0 then none else some (floor - 1 + given)
    let (more, widest, c) ← blockIndent known (c.size + 1) 0 c
    let (text, c) ← blockFrom literal chomp (known.getD (max 1 (max widest floor))) (c.size + 1)
        [] more false c
    return (String.ofList text, c)

end RegionCapture.Yaml
