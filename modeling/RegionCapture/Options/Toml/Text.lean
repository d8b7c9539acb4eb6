import RegionCapture.Text.Blank
import RegionCapture.Text.CodePoint

/-!
# Lines, strings and keys of TOML

A text has comments and line ends between its parts. Strings stand in single or double quotes, and
in three of them if they span lines; only double quotes have escapes. A key has parts with dots
between them, each a bare word or a string.
-/

namespace RegionCapture.Toml

open Text (codePoint? codeWidth? isBlank)

/-! ## Blanks, comments and line ends -/

/-- A character that may stand in comments and in strings of one line. -/
def isAllowed (c : Char) : Bool := c = '\t' || (0x20 ≤ c.toNat && c.toNat ≠ 0x7f)

/-- Whether a carriage return stands without a line feed after it; nowhere in a text may one do
so. -/
def hasLoneReturn : List Char → Bool
  | [] => false
  | c :: rest => (c = '\r' && rest.head? ≠ some '\n') || hasLoneReturn rest

def skip (cs : List Char) : List Char := cs.dropWhile isBlank

/-- What follows blanks, a comment and the end of the line; the end of the text ends a line too. -/
def endLine? (cs : List Char) : Option (List Char) :=
  let cs := match skip cs with
    | '#' :: cs => cs.dropWhile isAllowed
    | cs => cs
  match cs with
  | [] => some []
  | '\n' :: cs => some cs
  | '\r' :: '\n' :: cs => some cs
  | _ => none

/-- What follows all blanks, comments and line ends. -/
def skipLines : (fuel : Nat) → List Char → List Char
  | 0, cs => cs
  | fuel + 1, cs =>
    match skip cs with
    | [] => []
    | c :: rest =>
      if c = '#' ∨ c = '\n' ∨ c = '\r' then
        match endLine? (c :: rest) with
        | some rest => skipLines fuel rest
        | none => c :: rest
      else c :: rest

/-! ## Strings -/

/-- The character that a one-letter escape stands for. -/
def escape? (c : Char) : Option Char :=
  [('b', 0x08), ('t', 0x09), ('n', 0x0a), ('f', 0x0c), ('r', 0x0d), ('e', 0x1b), ('"', 0x22),
    ('\\', 0x5c)].lookup c
    |>.map Char.ofNat

/-- The character that an escape stands for, and what follows it. -/
def escaped? : List Char → Option (Char × List Char)
  | [] => none
  | e :: rest =>
    match codeWidth? e with
    | some width => (codePoint? width rest).map (·, rest.drop width)
    | none => (escape? e).map (·, rest)

/-- A string of one line up to its closing quote; escapes count only between double quotes. -/
def shortString (quote : Char) : (fuel : Nat) → List Char → Option (List Char × List Char)
  | 0, _ => none
  | _, [] => none
  | fuel + 1, c :: rest =>
    if c = quote then some ([], rest)
    else if c = '\\' ∧ quote = '"' then do
      let (e, rest) ← escaped? rest
      let (s, rest) ← shortString quote fuel rest
      return (e :: s, rest)
    else if isAllowed c then (shortString quote fuel rest).map fun (s, rest) => (c :: s, rest)
    else none

/-- A character that a backslash at the end of a line takes away. -/
def isTrimmed (c : Char) : Bool := isBlank c || c = '\n' || c = '\r'

/-- How many quotes may stand at the end of a string of several lines: up to two of them belong to
it. After an escaped backslash there may be one more. -/
def quotesAtEnd (afterBackslash : Bool) : Nat := if afterBackslash then 6 else 5

/-- A string of several lines up to its closing quotes; a backslash at the end of a line takes the
line end and the blanks after it away. -/
def longString (quote : Char) :
    (fuel : Nat) → (afterBackslash : Bool) → List Char → Option (List Char × List Char)
  | 0, _, _ => none
  | _, _, [] => none
  | fuel + 1, afterBackslash, c :: rest =>
    let quotes := ((c :: rest).takeWhile (· = quote)).length
    if 3 ≤ quotes then
      if quotes ≤ quotesAtEnd afterBackslash then
        some (List.replicate (quotes - 3) quote, (c :: rest).drop quotes)
      else none
    else if c = '\\' ∧ quote = '"' then
      if (skip rest).head?.any fun c => c = '\n' || c = '\r' then
        longString quote fuel false (rest.dropWhile isTrimmed)
      else do
        let (e, rest) ← escaped? rest
        let (s, rest) ← longString quote fuel (e = '\\') rest
        return (e :: s, rest)
    else if isAllowed c || c = '\n' || (c = '\r' && rest.head? = some '\n') then
      (longString quote fuel false rest).map fun (s, rest) => (c :: s, rest)
    else none

/-- A text without a line end at its start. -/
def dropLineEnd : List Char → List Char
  | '\n' :: cs => cs
  | '\r' :: '\n' :: cs => cs
  | cs => cs

/-- A string after its first quote; only a value may span lines. -/
def string (quote : Char) (value : Bool) (cs : List Char) : Option (String × List Char) :=
  let result :=
    if value && cs.take 2 = [quote, quote]
      then longString quote (cs.length + 1) false (dropLineEnd (cs.drop 2))
    else shortString quote (cs.length + 1) cs
  result.map fun (s, rest) => (String.ofList s, rest)

/-! ## Keys -/

/-- A key in which the case of letters makes no difference; the long s is one of the forms of its
letter. -/
def foldKey (key : String) : String :=
  String.ofList (key.toList.map fun c =>
    if c = Char.ofNat 0x17f then 's' else if c = Char.ofNat 0x212a then 'k' else c.toLower)

def isKeyChar (c : Char) : Bool :=
  ('a' ≤ c && c ≤ 'z') || ('A' ≤ c && c ≤ 'Z') || ('0' ≤ c && c ≤ '9') || c = '_' || c = '-'

/-- One part of a key. -/
def keyPart (cs : List Char) : Option (String × List Char) :=
  match cs with
  | '"' :: rest => string '"' false rest
  | '\'' :: rest => string '\'' false rest
  | cs =>
    let k := cs.takeWhile isKeyChar
    if k.isEmpty then none else some (String.ofList k, cs.dropWhile isKeyChar)

/-- The parts of a key, with dots between them. -/
def keyPath : (fuel : Nat) → List Char → Option (List String × List Char)
  | 0, _ => none
  | fuel + 1, cs => do
    let (k, rest) ← keyPart (skip cs)
    match skip rest with
    | '.' :: rest =>
      let (ks, rest) ← keyPath fuel rest
      return (k :: ks, rest)
    | rest => return ([k], rest)

end RegionCapture.Toml
