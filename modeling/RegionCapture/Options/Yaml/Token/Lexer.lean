import RegionCapture.Options.Yaml.Token.Tag
import RegionCapture.Options.Yaml.Token.Text

/-!
# Cutting a YAML text into tokens

Tokens are made only when they are asked for, a few at a time: what stands behind the last one that
is needed is never looked at. A key need not be marked as one. So wherever a key may start, the
place is remembered, and if a colon follows on the same line the mark of the key is put in front of
it, together with the start of the block mapping that it opens.

Indentation is kept as a floor, the least column at which a line still belongs to the innermost
block; it is zero outside of all blocks.
-/

namespace RegionCapture.Yaml

open Text (isBlank)

/-- A place where a key may have started. -/
structure KeyStart where
  /-- whether it can still be a key -/
  possible : Bool := false
  /-- whether nothing but a key can stand there -/
  required : Bool := false
  /-- whether tokens are held back until it is clear whether it is a key -/
  awaited : Bool := false
  /-- the number of the token that starts there -/
  number : Nat := 0
  index : Nat := 0
  line : Nat := 0
  column : Nat := 0

/-- How many characters a key may take before its colon. -/
def keyLimit : Nat := 1024

/-- Whether a colon at a place would make it a key: it stands on the same line, and not too far
away. -/
def KeyStart.isOpen (k : KeyStart) (c : Cursor) : Bool :=
  k.possible && c.line ≤ k.line && c.index ≤ k.index + keyLimit

/-- A text that is being cut into tokens. -/
structure Lexer where
  here : Cursor
  /-- the tokens that are made and not yet taken -/
  queue : List Token := []
  /-- how many tokens have been taken -/
  taken : Nat := 0
  /-- the least column of a line in the innermost block -/
  floor : Nat := 0
  /-- the floors of the blocks around it -/
  floors : List Nat := []
  /-- where a key may have started in the innermost flow collection, or outside of all -/
  key : KeyStart := {}
  /-- the same for the flow collections around it, and outside of all -/
  outer : List KeyStart := []
  /-- whether a key may start here -/
  keyAllowed : Bool := true
  /-- whether the text starts with a byte order mark, and its end is not near -/
  marked : Bool := false

namespace Lexer

/-- How deep blocks and flow collections may be nested. -/
def depthLimit : Nat := 10000

def inFlow (lx : Lexer) : Bool := !lx.outer.isEmpty

def next (lx : Lexer) : Nat := lx.taken + lx.queue.length

def emit (lx : Lexer) (t : Token) : Lexer := { lx with queue := lx.queue ++ [t] }

/-- Puts a token in front of the one with a number; if that one has been taken, it is appended. -/
def emitAt (lx : Lexer) (number : Nat) (t : Token) : Lexer :=
  if number < lx.taken then lx.emit t
  else { lx with
    queue := lx.queue.take (number - lx.taken) ++ t :: lx.queue.drop (number - lx.taken) }

/-- Appends a token that takes `n` characters. -/
def emitOver (lx : Lexer) (n : Nat) (t : Token) : Lexer :=
  { lx with here := lx.here.advance n }.emit t

/-! ## Keys -/

/-- Gives up the place where a key may have started. -/
def dropKey (lx : Lexer) : Option Lexer :=
  if lx.key.possible && lx.key.required then none
  else some { lx with key.possible := false, key.awaited := false }

/-- Remembers that a key may start here. -/
def saveKey (lx : Lexer) : Option Lexer := do
  if !lx.keyAllowed then return lx
  else
    let lx ← lx.dropKey
    let c := lx.here
    return { lx with
      key := { possible := true, required := !lx.inFlow && lx.floor = c.column + 1, awaited := true,
               number := lx.next, index := c.index, line := c.line, column := c.column } }

/-- The place of the next token to be taken, if it may be a key that is waited for. -/
def awaitedKey? (lx : Lexer) : Option KeyStart :=
  (lx.key :: lx.outer).find? fun k => k.possible && k.awaited && k.number = lx.taken

/-! ## Blocks -/

/-- Opens a block at a column, if it lies deeper than the open ones; its start is put in front of a
token. -/
def openBlock (lx : Lexer) (column number : Nat) (start : Token) : Option Lexer :=
  if lx.inFlow || column < lx.floor then some lx
  else if depthLimit ≤ lx.floors.length then none
  else some ({ lx with floors := lx.floor :: lx.floors, floor := column + 1 }.emitAt number start)

/-- Ends the blocks with a floor above the given one: how many they are, and the floors that
stay. -/
def blocksAbove (floor : Nat) : (top : Nat) → (floors : List Nat) → Nat × Nat × List Nat
  | top, [] => (0, top, [])
  | top, f :: fs =>
    if floor < top then
      let (n, top, fs) := blocksAbove floor f fs
      (n + 1, top, fs)
    else (0, top, f :: fs)

/-- Ends the blocks that a line does not belong to. -/
def closeBlocks (lx : Lexer) (floor : Nat) : Lexer :=
  if lx.inFlow then lx
  else
    let (n, top, fs) := blocksAbove floor lx.floor lx.floors
    { lx with floor := top, floors := fs, queue := lx.queue ++ List.replicate n .blockEnd }

/-! ## Blanks and comments -/

/-- Passes over the place of a mark: the first character of a line that starts between tokens. -/
def passMark (c : Cursor) : Cursor :=
  if c.column ≠ 0 then c
  else match c.rest with
    | [] => c
    | x :: _ => if isBlank x then c.passBlanks 1 else c.advance 1

/-- Passes over blanks, comments and line ends before a token. A tab does not indent: where a key
may start, it is no blank. A line end outside of flow collections allows a key. If the text starts
with a mark, all lines are taken to start with one. -/
def skipToToken (marked inFlow : Bool) : (fuel : Nat) → (keyAllowed : Bool) → Cursor → Bool × Cursor
  | 0, allowed, c => (allowed, c)
  | fuel + 1, allowed, c =>
    let c := if marked then passMark c else c
    let c := c.passBlanks (c.rest.takeWhile fun x => x = ' ' ||
      (x = '\t' && (inFlow || !allowed))).length
    let c := if c.head? = some '#' then c.skipComments (c.size + 1) else c
    match c.lineEnd? with
    | some (_, c) => skipToToken marked inFlow fuel (allowed || !inFlow) c
    | none => (allowed, c)

/-! ## Tokens -/

/-- Starts over for what follows a document or a directive. -/
def endDocument (lx : Lexer) : Option Lexer := do
  let lx ← (lx.closeBlocks 0).dropKey
  return { lx with keyAllowed := false }

/-- The end of the text. -/
def fetchEnd (lx : Lexer) : Option Lexer := do
  let c := lx.here
  let lx :=
    if c.column = 0 then lx else { lx with here := { c with column := 0, line := c.line + 1 } }
  return (← lx.endDocument).emit .textEnd

/-- Opens a flow collection, which may be a key itself. -/
def fetchOpen (lx : Lexer) (t : Token) : Option Lexer := do
  let lx ← lx.saveKey
  if depthLimit ≤ lx.outer.length then none
  else
    return { lx with
      outer := lx.key :: lx.outer, key := { number := lx.next }, keyAllowed := true }.emitOver 1 t

/-- Leaves a flow collection. One in which no key started is no longer waited for. -/
def leaveFlow (lx : Lexer) : Lexer :=
  match lx.outer with
  | [] => lx
  | k :: ks =>
    { lx with outer := ks, key := { k with awaited := k.awaited && k.number ≠ lx.key.number } }

def fetchClose (lx : Lexer) (t : Token) : Option Lexer := do
  let lx ← lx.dropKey
  return { lx.leaveFlow with keyAllowed := false }.emitOver 1 t

def fetchComma (lx : Lexer) : Option Lexer := do
  let lx ← lx.dropKey
  return { lx with keyAllowed := true }.emitOver 1 .comma

/-- Opens a block for a mark that stands here, where a key must be allowed; flow collections need no
block. -/
def openBlockHere (lx : Lexer) (start : Token) : Option Lexer :=
  if lx.inFlow then some lx
  else if lx.keyAllowed then lx.openBlock lx.here.column lx.next start
  else none

def fetchItem (lx : Lexer) : Option Lexer := do
  let lx ← (← lx.openBlockHere .blockListStart).dropKey
  return { lx with keyAllowed := true }.emitOver 1 .item

def fetchKey (lx : Lexer) : Option Lexer := do
  let lx ← (← lx.openBlockHere .blockMapStart).dropKey
  return { lx with keyAllowed := !lx.inFlow }.emitOver 1 .key

/-- The mark of a value; what stands before it on the line is its key. -/
def fetchValue (lx : Lexer) : Option Lexer := do
  let k := lx.key
  if k.isOpen lx.here then
    let lx ← (lx.emitAt k.number .key).openBlock k.column k.number .blockMapStart
    return { lx with
      key.possible := false, key.awaited := false, keyAllowed := false }.emitOver 1 .value
  else if k.possible && k.required then none
  else
    let lx ← lx.openBlockHere .blockMapStart
    return { lx with keyAllowed := !lx.inFlow }.emitOver 1 .value

/-- A token that may be a key or start one. -/
def fetchKeyLike (lx : Lexer) (scan : Cursor → Option (Token × Cursor)) : Option Lexer := do
  let lx ← lx.saveKey
  let (t, c) ← scan lx.here
  return { lx with here := c, keyAllowed := false }.emit t

/-- A block of lines. -/
def fetchBlock (lx : Lexer) (literal : Bool) : Option Lexer := do
  let lx ← lx.dropKey
  let (s, c) ← blockScalar literal lx.floor lx.here
  return { lx with here := c, keyAllowed := true }.emit (.scalar false s)

/-- A scalar without quotes. A key may start after it if it ends with its line. -/
def fetchPlain (lx : Lexer) : Option Lexer := do
  let lx ← lx.saveKey
  let (s, ended, c) ← plainScalar lx.inFlow lx.floor lx.here
  return { lx with here := c, keyAllowed := ended }.emit (.scalar true s)

/-- The characters that start no scalar without quotes. -/
def isIndicator (c : Char) : Bool :=
  ['-', '?', ':', ',', '[', ']', '{', '}', '#', '&', '*', '!', '|', '>', '\'', '"', '%', '@',
    '\x60'].contains c

/-- Makes the token that starts with a character. -/
def fetchAt (lx : Lexer) (c : Char) (rest : List Char) : Option Lexer :=
  if c = '[' then lx.fetchOpen .listStart
  else if c = '{' then lx.fetchOpen .mapStart
  else if c = ']' then lx.fetchClose .listEnd
  else if c = '}' then lx.fetchClose .mapEnd
  else if c = ',' then lx.fetchComma
  else if c = '-' && atGap rest then lx.fetchItem
  else if c = '?' && (lx.inFlow || atGap rest) then lx.fetchKey
  else if c = ':' && (lx.inFlow || atGap rest) then lx.fetchValue
  else if c = '*' then lx.fetchKeyLike fun c => (anchorName c).map fun (s, c) => (.alias s, c)
  else if c = '&' then lx.fetchKeyLike fun c => (anchorName c).map fun (s, c) => (.anchor s, c)
  else if c = '!' then lx.fetchKeyLike tagToken
  else if c = '|' && !lx.inFlow then lx.fetchBlock true
  else if c = '>' && !lx.inFlow then lx.fetchBlock false
  else if c = '\'' || c = '"' then
    lx.fetchKeyLike fun cur => (quotedScalar c cur).map fun (s, cur) => (.scalar false s, cur)
  else if c = '-' || (!lx.inFlow && (c = '?' || c = ':')) || !(isIndicator c || isBlank c)
    then lx.fetchPlain
  else none

/-- Passes over a comment on the line of the last token; after the mark of an item it belongs to the
item. -/
def skipComment (lx : Lexer) : Lexer :=
  if lx.queue.getLast? = some .item then lx else { lx with here := lx.here.skipLineComment }

/-- How many characters are looked at together; where fewer are left, the start of the text is out
of sight. -/
def window : Nat := 4

/-- Makes more tokens. -/
def fetch (lx : Lexer) : Option Lexer := do
  let (allowed, c) := skipToToken lx.marked lx.inFlow (lx.here.size + 1) lx.keyAllowed lx.here
  let marked := lx.marked && (c.rest.take window).length = window
  let lx := { lx with here := c, keyAllowed := allowed, marked }.closeBlocks (c.column + 1)
  match c.rest with
  | [] => lx.fetchEnd
  | x :: rest =>
    if c.column = 0 && x = '%' then
      let lx ← lx.endDocument
      let (t, c) ← directive lx.here
      return { lx with here := c }.emit t
    else if c.atMark "---" then return (← lx.endDocument).emitOver 3 .documentStart
    else if c.atMark "..." then return (← lx.endDocument).emitOver 3 .documentEnd
    else return (← lx.fetchAt x rest).skipComment

/-- Makes tokens until three are there and it is clear that no mark comes before the first one. -/
def settle : (fuel : Nat) → Lexer → Option Lexer
  | 0, _ => none
  | fuel + 1, lx =>
    if lx.queue.length < 3 then lx.fetch >>= settle fuel
    else
      match lx.awaitedKey? with
      | none => some lx
      | some k =>
        if k.isOpen lx.here then lx.fetch >>= settle fuel else if k.required then none else some lx

def peek (lx : Lexer) : Option (Token × Lexer) := do
  let lx ← lx.settle (lx.here.size + 4)
  return (← lx.queue.head?, lx)

def take (lx : Lexer) : Lexer := { lx with queue := lx.queue.tail, taken := lx.taken + 1 }

def ofText (cs : List Char) : Lexer :=
  { here := .ofText cs, marked := cs.head? = some (Char.ofNat 0xfeff) }

end Lexer

end RegionCapture.Yaml
