import RegionCapture.Text.Calendar
import RegionCapture.Text.Numeral

/-!
# Dates and times in YAML

A scalar without quotes may be a day, or a day and a time of it. Their numbers may have one digit or
two. The time follows a letter and then has a zone, or it follows blanks and has none.
-/

namespace RegionCapture.Yaml

open Text (isDigit)

/-- A number of one or two digits that is within a limit, and what follows it. -/
def shortNumber? (limit : Nat) (cs : List Char) : Option (Nat × List Char) := do
  let ds := (cs.take 2).takeWhile isDigit
  let n ← Text.numeral? 10 ds
  if n ≤ limit then some (n, cs.drop ds.length) else none

def after? (c : Char) : List Char → Option (List Char)
  | [] => none
  | x :: cs => if x = c then some cs else none

/-- What follows a day, whose year has four digits. -/
def afterDay? (cs : List Char) : Option (List Char) := do
  let ds := cs.takeWhile isDigit
  if ds.length ≠ 4 then none
  else
    let year ← Text.numeral? 10 ds
    let (month, cs) ← after? '-' (cs.drop 4) >>= shortNumber? 12
    let (day, cs) ← after? '-' cs >>= shortNumber? 31
    if Text.isDay year month day then some cs else none

def dropFraction : List Char → List Char
  | c :: d :: cs => if (c = '.' || c = ',') && isDigit d then cs.dropWhile isDigit else c :: d :: cs
  | cs => cs

/-- What follows a time of the day: hours, minutes, seconds and maybe a fraction of a second. -/
def afterTime? (cs : List Char) : Option (List Char) := do
  let (_, cs) ← shortNumber? 23 cs
  let (_, cs) ← after? ':' cs >>= shortNumber? 59
  let (_, cs) ← after? ':' cs >>= shortNumber? 59
  return dropFraction cs

/-- Whether a text is a zone: the letter of the zero zone, or hours and minutes away from it. -/
def isZone (cs : List Char) : Bool :=
  match cs with
  | ['Z'] => true
  | [s, h, h', ':', m, m'] =>
    (s = '+' || s = '-') && (Text.numeral? 10 [h, h']).any (· ≤ 24) &&
      (Text.numeral? 10 [m, m']).any (· ≤ 60)
  | _ => false

/-- Whether a text is a day or a time of a day. -/
def isMoment (cs : List Char) : Bool :=
  match afterDay? cs with
  | none => false
  | some [] => true
  | some (c :: cs) =>
    if c = 'T' || c = 't' then (afterTime? cs).any isZone
    else if c = ' ' then (afterTime? (cs.dropWhile (· = ' '))).any List.isEmpty
    else false

end RegionCapture.Yaml
