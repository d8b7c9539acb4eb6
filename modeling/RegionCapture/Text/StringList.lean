import RegionCapture.Text.Numeral

/-!
# Lists of texts as JSON

The names recorded with a signature are stored as a JSON list of strings. Reading is lenient in two
ways: a stored `null` stands for "no list", and a `null` inside a list for the empty text. An
escaped surrogate that has no partner reads as the replacement character.
-/

namespace RegionCapture.Text.StringList

/-! ## Writing -/

/-- One character inside a string. -/
def writeChar (c : Char) : List Char :=
  match c.toNat with
  | 0x22 => ['\\', '"']
  | 0x5c => ['\\', '\\']
  | n => if n < 0x20 then '\\' :: 'u' :: hexDigits 4 n else [c]

def writeString (s : String) : List Char := '"' :: s.toList.flatMap writeChar ++ ['"']

/-- Strings with commas between them. -/
def writeItems : List String → List Char
  | [] => []
  | [s] => writeString s
  | s :: ss => writeString s ++ ',' :: writeItems ss

def encode (xs : List String) : String := String.ofList ('[' :: writeItems xs ++ [']'])

/-! ## Reading -/

/-- The character that a one-letter escape stands for. -/
def shortEscape? (c : Char) : Option Nat :=
  match c with
  | '"' => some 0x22
  | '\\' => some 0x5c
  | '/' => some 0x2f
  | 'b' => some 0x08
  | 'f' => some 0x0c
  | 'n' => some 0x0a
  | 'r' => some 0x0d
  | 't' => some 0x09
  | _ => none

/-- The code units of a string up to its closing quote, and what follows it. -/
def readUnits : List Char → Option (List Nat × List Char)
  | [] => none
  | '"' :: rest => some ([], rest)
  | '\\' :: 'u' :: a :: b :: c :: d :: rest => do
    let n ← numeral? 16 [a, b, c, d]
    let (ns, rest) ← readUnits rest
    return (n :: ns, rest)
  | '\\' :: e :: rest => do
    let n ← shortEscape? e
    let (ns, rest) ← readUnits rest
    return (n :: ns, rest)
  | c :: rest =>
    if c.toNat < 0x20 then none
    else do
      let (ns, rest) ← readUnits rest
      return (c.toNat :: ns, rest)

/-- Whether a code unit is the first of a surrogate pair. -/
def isHigh (n : Nat) : Bool := 0xd800 ≤ n && n < 0xdc00

/-- Whether a code unit is the second of a surrogate pair. -/
def isLow (n : Nat) : Bool := 0xdc00 ≤ n && n < 0xe000

/-- Joins surrogate pairs; a surrogate without partner becomes the replacement character. -/
def joinUnits : List Nat → List Char
  | [] => []
  | [n] => [if isHigh n || isLow n then Char.ofNat 0xfffd else Char.ofNat n]
  | n :: m :: rest =>
    if isHigh n && isLow m then Char.ofNat (0x10000 + (n - 0xd800) * 0x400 + (m - 0xdc00)) ::
      joinUnits rest
    else (if isHigh n || isLow n then Char.ofNat 0xfffd else Char.ofNat n) :: joinUnits (m :: rest)

/-- The pieces a stored list is made of. -/
inductive Lexeme where
  | left | right | comma | null
  | text (s : String)
deriving DecidableEq

/-- Splits a text into pieces, at most `fuel` of them with the blanks around them. -/
def lex : (fuel : Nat) → List Char → Option (List Lexeme)
  | _, [] => some []
  | 0, _ :: _ => none
  | fuel + 1, c :: rest =>
    match c with
    | ' ' | '\t' | '\n' | '\r' => lex fuel rest
    | '[' => (lex fuel rest).map (.left :: ·)
    | ']' => (lex fuel rest).map (.right :: ·)
    | ',' => (lex fuel rest).map (.comma :: ·)
    | '"' => do
      let (ns, rest) ← readUnits rest
      return .text (String.ofList (joinUnits ns)) :: (← lex fuel rest)
    | 'n' =>
      match rest with
      | 'u' :: 'l' :: 'l' :: rest => (lex fuel rest).map (.null :: ·)
      | _ => none
    | _ => none

/-- The items up to the closing bracket, which has to be the last piece. -/
def readItems : List Lexeme → Option (List String)
  | [.text s, .right] => some [s]
  | [.null, .right] => some [""]
  | .text s :: .comma :: rest => (readItems rest).map (s :: ·)
  | .null :: .comma :: rest => (readItems rest).map ("" :: ·)
  | _ => none

/-- Reads a stored list; the outer `none` means that the text is no list of strings. -/
def decode (s : String) : Option (Option (List String)) := do
  match ← lex (s.length + 1) s.toList with
  | [.null] => return none
  | [.left, .right] => return some []
  | .left :: rest => return some (← readItems rest)
  | _ => none

end RegionCapture.Text.StringList
