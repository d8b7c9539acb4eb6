import RegionCapture.Options.Document
import RegionCapture.Options.Yaml.Moment
import RegionCapture.Text.Base64
import RegionCapture.Text.Double

/-!
# Scalars of YAML

A scalar without quotes is a null, a truth value, a number, a date or a text by its spelling. A
common tag asks for one of them, and with any other tag a scalar is a text. The same rules tell a
printer which texts need quotes.
-/

namespace RegionCapture.Yaml

open Text (Double isDigit numeral? sign)

/-- A number with a fraction or an exponent. -/
inductive Number where
  /-- what is no number -/
  | nan
  | infinite (negative : Bool)
  | finite (negative : Bool) (x : Double)
deriving DecidableEq

/-- What a scalar stands for. -/
inductive Value where
  | null
  | bool (b : Bool)
  | int (n : Int)
  | float (x : Number)
  /-- a date or a time, as it is written -/
  | moment (written : String)
  | text (s : RawText)
deriving DecidableEq

/-! ## Equal values -/

/-- Whether two numbers are equal. Zero has no sign, and what is no number equals nothing. -/
def Number.equals : Number → Number → Bool
  | nan, _ => false
  | finite s x, finite t y => x = y && (s = t || x.mantissa = 0)
  | x, y => x = y

/-- Whether two values are the same key. -/
def Value.equals : Value → Value → Bool
  | float x, float y => x.equals y
  | v, w => v = w

/-! ## Words -/

def least : Int := -0x8000000000000000

/-- The first number that is too large for a setting. -/
def limit : Int := 0x8000000000000000

/-- The words that stand for something else than themselves. -/
def words : List (String × Value) :=
  ["", "~", "null", "Null", "NULL"].map (·, .null)
    ++ ["true", "True", "TRUE"].map (·, .bool true)
    ++ ["false", "False", "FALSE"].map (·, .bool false)
    ++ [".nan", ".NaN", ".NAN"].map (·, .float .nan)
    ++ [".inf", ".Inf", ".INF", "+.inf", "+.Inf", "+.INF"].map (·, .float (.infinite false))
    ++ ["-.inf", "-.Inf", "-.INF"].map (·, .float (.infinite true))

/-- The spellings that are truth values only where a truth value is wanted. -/
def looseBools : List (String × Bool) :=
  ["y", "Y", "yes", "Yes", "YES", "on", "On", "ON"].map (·, true)
    ++ ["n", "N", "no", "No", "NO", "off", "Off", "OFF"].map (·, false)

/-! ## Whole numbers -/

/-- A whole number without sign: `0x`, `0o` and `0b` give the base, and so does a leading zero,
which means eight. -/
def unsigned? : List Char → Option Nat
  | ['0'] => some 0
  | '0' :: c :: cs =>
    if c = 'x' ∨ c = 'X' then numeral? 16 cs
    else if c = 'o' ∨ c = 'O' then numeral? 8 cs
    else if c = 'b' ∨ c = 'B' then numeral? 2 cs
    else numeral? 8 (c :: cs)
  | cs => numeral? 10 cs

/-- A whole number of at most 64 bits; a sign takes one of them. -/
def whole? (read : List Char → Option Nat) (cs : List Char) : Option Int := do
  let (s, cs') := sign cs
  let n := s * (← read cs')
  if least ≤ n ∧ (n < limit ∨ n < 2 * limit ∧ cs' = cs) then some n else none

/-- A whole number whose sign stands between the mark of its base and its digits. -/
def innerSigned? : List Char → Option Int
  | '0' :: 'b' :: cs => whole? (numeral? 2) cs
  | '0' :: 'o' :: cs => whole? (numeral? 8) cs
  | _ => none

/-! ## Numbers with a fraction or an exponent -/

/-- The exponent after the digits of a number, zero if there is none. -/
def exponent? : List Char → Option Int
  | [] => some 0
  | c :: cs =>
    if c = 'e' ∨ c = 'E' then
      let (s, ds) := sign cs
      (numeral? 10 ds).map fun n => s * n
    else none

/-- The whole part of a number, as a setting: what lies below all settings is the least one, and so
is the first number above all settings; larger ones are none. -/
def Number.setting : Number → Option Int
  | nan => none
  | infinite negative => if negative then some least else none
  | finite negative x =>
    let n : Int := x.whole
    if negative then some (max least (-n))
    else if n < limit then some n
    else if n = limit then some least
    else none

/-- A number written with a point or an exponent. Beyond the range of doubles there is none. -/
def float? (cs : List Char) : Option Value := do
  let (s, cs) := sign cs
  let before := cs.takeWhile isDigit
  let (after, rest) := match cs.dropWhile isDigit with
    | '.' :: rest => (rest.takeWhile isDigit, rest.dropWhile isDigit)
    | rest => ([], rest)
  let digits ← numeral? 10 (before ++ after)
  let x ← Double.ofDecimal? digits ((← exponent? rest) - after.length)
  return .float (.finite (s < 0) x)

/-- Whether every underscore stands between two digits. -/
def dividesDigits : (afterDigit : Bool) → List Char → Bool
  | _, [] => true
  | afterDigit, '_' :: cs => afterDigit && cs.head?.any isDigit && dividesDigits false cs
  | _, c :: cs => dividesDigits (isDigit c) cs

/-! ## Values -/

/-- The number that a spelling stands for. Underscores may divide its digits, and where it starts
with a digit or a sign they may stand anywhere. -/
def number? (cs : List Char) : Option Value :=
  let plain := cs.filter (· ≠ '_')
  match cs with
  | [] => none
  | '.' :: _ => if dividesDigits false cs then float? plain else none
  | c :: _ =>
    if isDigit c ∨ c = '+' ∨ c = '-' then
      (whole? unsigned? plain).map .int <|> float? plain <|> (innerSigned? plain).map .int
    else none

/-- What a scalar without quotes and tag stands for. -/
def Value.ofPlain (raw : String) : Value :=
  match words.lookup raw with
  | some v => v
  | none => if isMoment raw.toList then .moment raw else (number? raw.toList).getD (.text raw)

/-- A whole number as a number with a fraction; one that takes all 64 bits is none. -/
def floatOfInt? (n : Int) : Option Value :=
  if n < limit then (Double.nearest? n.natAbs 1).map fun x => .float (.finite (n < 0) x) else none

def textTag : String := "!!str"

/-- What a scalar with a tag stands for, if it can stand for it. Only common tags ask for
something. -/
def Value.tagged? (tag raw : String) : Option Value :=
  match tag, Value.ofPlain raw with
  | "!!binary", _ => (Text.decodeBase64? raw).map fun bytes => .text (.ofBytes bytes)
  | "!!null", .null => some .null
  | "!!null", _ => none
  | "!!bool", .bool b => some (.bool b)
  | "!!bool", _ => none
  | "!!int", .int n => some (.int n)
  | "!!int", _ => none
  | "!!float", .float x => some (.float x)
  | "!!float", .int n => floatOfInt? n
  | "!!float", _ => none
  | "!!timestamp", .moment t => some (.moment t)
  | "!!timestamp", _ => none
  | _, _ => some (.text raw)

/-! ## Readings -/

/-- What a value says to each kind of setting. A text setting takes the scalar as it is written. -/
def Value.scalar (raw : String) : Value → Scalar
  | null => { blank := true }
  | bool b => { bool := some b, text := some (raw : RawText) }
  | int n => { int := if n < limit then some n else none, text := some (raw : RawText) }
  | float x => { int := x.setting, text := some (raw : RawText) }
  | moment _ => { text := some (raw : RawText) }
  | text s => { bool := if s.isText then looseBools.lookup s.shown else none, text := some s }

/-- What a scalar stands for, by its tag and by whether it is written without quotes. -/
def value? (tag : Option String) (plain : Bool) (raw : String) : Option Value :=
  match tag with
  | some tag => Value.tagged? tag raw
  | none => some (if plain then .ofPlain raw else .text raw)

/-! ## Texts -/

/-- Whether a spelling is a number in base sixty: digits, then groups below sixty after colons. -/
def isSexagesimal (cs : List Char) : Bool :=
  let (_, cs) := sign cs
  let whole := cs.takeWhile (· ≠ '.')
  match whole.splitOn ':' with
  | first :: more =>
    (first.head?.any isDigit && first.all fun c => isDigit c || c = '_')
      && !more.isEmpty
      && (more.all fun g => match g with
        | [a] => isDigit a
        | [a, b] => '0' ≤ a && a ≤ '5' && isDigit b
        | _ => false)
      && (((cs.dropWhile (· ≠ '.')).drop 1).all fun c => isDigit c || c = '_')
  | [] => false

/-- Whether a text keeps its meaning as a text when it is written without quotes. -/
def readsAsText (s : String) : Bool :=
  Value.ofPlain s = .text (s : RawText) && (looseBools.lookup s).isNone && !isSexagesimal s.toList

end RegionCapture.Yaml
