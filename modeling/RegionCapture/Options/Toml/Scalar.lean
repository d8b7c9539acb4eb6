import RegionCapture.Options.Document
import RegionCapture.Options.Toml.Text
import RegionCapture.Text.Calendar
import RegionCapture.Text.Double

/-!
# Scalars of TOML

Values have types: no text is a number. A word without quotes is a truth value, a whole number of 64
bits, a number with a fraction or an exponent, or a date or a time.
-/

namespace RegionCapture.Toml

open Text (sign)

/-! ## Numbers -/

/-- The number written by digits, with an underscore between two of them at most. -/
def natural? (base : Nat) (cs : List Char) : Option Nat :=
  if (cs.splitOn '_').any List.isEmpty then none
  else Text.numeral? base (cs.filter (· ≠ '_'))

/-- A decimal number without superfluous zeros. -/
def decimal? (cs : List Char) : Option Nat :=
  match cs with
  | '0' :: _ :: _ => none
  | cs => natural? 10 cs

/-- A whole number; only decimal ones have a sign. -/
def whole? (cs : List Char) : Option Int :=
  match cs with
  | '0' :: 'x' :: cs => (natural? 16 cs).map (↑·)
  | '0' :: 'o' :: cs => (natural? 8 cs).map (↑·)
  | '0' :: 'b' :: cs => (natural? 2 cs).map (↑·)
  | cs => (decimal? (sign cs).2).map fun n => (sign cs).1 * n

/-- The digits of a number with a fraction, before and after the point. -/
def mantissa? (cs : List Char) : Option (List Char × List Char) := do
  let digits (cs : List Char) : List Char := cs.filter (· ≠ '_')
  match cs.splitOn '.' with
  | [a] => if (decimal? a).isSome then some (digits a, []) else none
  | [a, b] =>
    if (decimal? a).isSome && (natural? 10 b).isSome then some (digits a, digits b) else none
  | _ => none

/-- Whether a word is a number with a fraction or an exponent that lies within the range of doubles,
or one that is not finite. -/
def isFloat (cs : List Char) : Bool :=
  let (_, cs) := sign cs
  let isMantissa (c : Char) : Bool := c ≠ 'e' && c ≠ 'E'
  let exponent : Option Int := match cs.dropWhile isMantissa with
    | [] => if cs.contains '.' then some 0 else none
    | _ :: e => (natural? 10 (sign e).2).map fun n => (sign e).1 * n
  let finite := match mantissa? (cs.takeWhile isMantissa), exponent with
    | some (a, b), some e =>
      ((Text.numeral? 10 (a ++ b)).bind fun n => Text.Double.ofDecimal? n (e - b.length)).isSome
    | _, _ => false
  cs = "inf".toList || cs = "nan".toList || finite

/-! ## Dates and times -/

def pair? (cs : List Char) : Option Nat := if cs.length = 2 then natural? 10 cs else none

/-- Two digits with a value up to a limit. -/
def isPair (limit : Nat) (cs : List Char) : Bool := (pair? cs).any (· ≤ limit)

/-- Whether a word is a day of the calendar: year, month and day. -/
def isDay (cs : List Char) : Bool :=
  match cs.splitOn '-' with
  | [y, m, d] =>
    match natural? 10 y, pair? m, pair? d with
    | some year, some month, some day => y.length = 4 && Text.isDay year month day
    | _, _, _ => false
  | _ => false

/-- Whether a word is a time of the day, possibly with a fraction of a second. -/
def isTime (cs : List Char) : Bool :=
  match cs.splitOn '.' with
  | [a] =>
    match a.splitOn ':' with
    | [h, m] => isPair 23 h && isPair 59 m
    | [h, m, s] => isPair 23 h && isPair 59 m && isPair 59 s
    | _ => false
  | [a, b] =>
    !b.isEmpty && b.all Char.isDigit && (match a.splitOn ':' with
      | [h, m, s] => isPair 23 h && isPair 59 m && isPair 59 s
      | _ => false)
  | _ => false

/-- Whether a word is a time with the distance of its zone, which may be missing. -/
def isZonedTime (cs : List Char) : Bool :=
  let time := cs.takeWhile fun c => c.isDigit || c = ':' || c = '.'
  isTime time && match cs.dropWhile fun c => c.isDigit || c = ':' || c = '.' with
    | [] => true
    | [c] => c = 'Z' || c = 'z'
    | c :: zone => (c = '+' || c = '-') && (match zone.splitOn ':' with
      | [h, m] => isPair 24 h && isPair 60 m
      | _ => false)

/-- Whether a word is a day, a time or both. -/
def isMoment (cs : List Char) : Bool :=
  isDay cs || isTime cs
    || (isDay (cs.take 10) && (['T', 't', ' '].any fun c => cs[10]? = some c) &&
        isZonedTime (cs.drop 11))

/-! ## Words -/

/-- What a word that is no string says. -/
def word? (cs : List Char) : Option Scalar :=
  if cs = "true".toList then some { bool := some true }
  else if cs = "false".toList then some { bool := some false }
  else match whole? cs with
    | some n =>
      if -0x8000000000000000 ≤ n ∧ n < 0x8000000000000000 then some { int := some n } else none
    | none => if isFloat cs || isMoment cs then some {} else none

def isWordChar (c : Char) : Bool := isKeyChar c || c = '+' || c = '.' || c = ':'

/-- A word and what follows it; a day may be followed by a blank and a time. -/
def takeWord (cs : List Char) : List Char × List Char :=
  let w := cs.takeWhile isWordChar
  match cs.dropWhile isWordChar with
  | ' ' :: c :: rest =>
    if isDay w && c.isDigit then
      (w ++ ' ' :: (c :: rest).takeWhile isWordChar, (c :: rest).dropWhile isWordChar)
    else (w, ' ' :: c :: rest)
  | rest => (w, rest)

end RegionCapture.Toml
