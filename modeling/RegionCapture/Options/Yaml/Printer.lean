import RegionCapture.Options.Yaml.Cursor
import RegionCapture.Options.Yaml.Scalar

/-!
# Writing options as YAML

Options are written as nested mappings, a section's settings indented by four spaces. A setting that
has its zero value is left out, and so is a section without settings. Texts are written without
quotes where they read back as the same text, else in quotes, or line by line where they have
several lines. What is no text is written as letters that stand for its bytes.
-/

namespace RegionCapture.Yaml

/-! ## What a text needs -/

def isShown (c : Char) : Bool :=
  let n := c.toNat
  n = 0x0a || (0x20 ≤ n && n ≤ 0x7e) || (0xa0 ≤ n && n ≤ 0xfffd && n ≠ 0xfeff)

/-- Whether a text has characters, tabs apart, that only double quotes can show. -/
def needsEscapes (cs : List Char) : Bool := cs.any fun c => !isShown c && c ≠ '\t'

def hasSpaceBeforeEnd (cs : List Char) : Bool :=
  (cs.zip cs.tail).any fun (a, b) => a = ' ' && isBreak b

def hasSpaceAfterEnd (cs : List Char) : Bool :=
  (cs.zip cs.tail).any fun (a, b) => isBreak a && b = ' '

/-- The characters that cannot start a text without quotes. -/
def startsSpecially (c : Char) : Bool :=
  ['#', ',', '[', ']', '{', '}', '&', '*', '!', '|', '>', '\'', '"', '%', '@', '\x60'].contains c

/-- Whether a text has a mark of the format inside: a colon before a blank, or a number sign after
one. -/
def hasMark : (afterBlank : Bool) → List Char → Bool
  | _, [] => false
  | afterBlank, c :: rest =>
    (c = ':' && atGap rest) || (c = '#' && afterBlank) || hasMark (c = ' ') rest

/-- Whether a text would be taken for something else without quotes, because of the marks in it. -/
def hasMarks (cs : List Char) : Bool :=
  match cs with
  | [] => true
  | c :: rest =>
    startsSpecially c || ((c = '-' || c = '?' || c = ':') && atGap rest) || hasMark false rest
      || cs.take 3 = "---".toList || cs.take 3 = "...".toList

/-- Whether a text can stand without quotes: it has one line without tabs, no space at either end,
and no marks. -/
def fitsPlain (cs : List Char) : Bool :=
  !(needsEscapes cs || hasMarks cs || cs.any (fun c => isBreak c || c = '\t') || cs.head? = some ' '
    || cs.getLast? = some ' ')

/-- Whether a text can stand in single quotes: it has no tabs, and no spaces around line ends. -/
def fitsSingle (cs : List Char) : Bool :=
  !(needsEscapes cs || cs.contains '\t' || hasSpaceBeforeEnd cs || hasSpaceAfterEnd cs)

/-- Whether a text can be written line by line: no line ends with a space. -/
def fitsLines (cs : List Char) : Bool :=
  !(needsEscapes cs || hasSpaceBeforeEnd cs || cs.getLast? = some ' ')

/-! ## Texts -/

/-- A character with at least as many hexadecimal digits as its escape has. -/
def upperHex (width n : Nat) : List Char := (Text.hexDigits width n).map Char.toUpper

/-- A character as an escape. -/
def escapeCode (c : Char) : List Char :=
  match c.toNat with
  | 0x00 => ['\\', '0']
  | 0x07 => ['\\', 'a']
  | 0x08 => ['\\', 'b']
  | 0x09 => ['\\', 't']
  | 0x0a => ['\\', 'n']
  | 0x0b => ['\\', 'v']
  | 0x0c => ['\\', 'f']
  | 0x0d => ['\\', 'r']
  | 0x1b => ['\\', 'e']
  | 0x22 => ['\\', '"']
  | 0x5c => ['\\', '\\']
  | 0x85 => ['\\', 'N']
  | 0xa0 => ['\\', '_']
  | 0x2028 => ['\\', 'L']
  | 0x2029 => ['\\', 'P']
  | n =>
    if n ≤ 0xff then '\\' :: 'x' :: upperHex 2 n
    else if n ≤ 0xffff then '\\' :: 'u' :: upperHex 4 n
    else '\\' :: 'U' :: upperHex 8 n

/-- A character between double quotes that stands for itself. -/
def isOwn (c : Char) : Bool := isShown c && !isBreak c && c ≠ '"' && c ≠ '\\'

/-- A text between double quotes. After a byte order mark at its start, every character is
escaped. -/
def doubleQuote (cs : List Char) : List Char :=
  let marked := cs.head? = some (Char.ofNat 0xfeff)
  '"' :: (cs.flatMap fun c => if isOwn c && !marked then [c] else escapeCode c) ++ ['"']

/-- A text line by line; what a line holds is indented. -/
def indentLines (indent : List Char) : (lineStart : Bool) → List Char → List Char
  | _, [] => []
  | start, c :: cs =>
    if isBreak c then c :: indentLines indent true cs
    else (if start then indent else []) ++ c :: indentLines indent false cs

/-- A text between single quotes; a quote is written twice. -/
def singleQuote (indent : List Char) (cs : List Char) : List Char :=
  '\'' :: indentLines indent false (cs.flatMap fun c => if c = '\'' then ['\'', '\'']
    else [c]) ++ ['\'']

/-- What the mark of a text of several lines says about its line ends: none counts at the end, or
all count. -/
def chompMark (cs : List Char) : List Char :=
  match cs.reverse with
  | [] => ['-']
  | [c] => if isBreak c then ['+'] else ['-']
  | c :: d :: _ => if !isBreak c then ['-'] else if isBreak d then ['+'] else []

/-- A text of several lines. Its mark gives the indentation if the text does not show it, and a line
end follows it unless the text starts with one. -/
def literal (indent : List Char) (cs : List Char) : List Char :=
  let hint := if cs.head?.any fun c => c = ' ' || isBreak c then ['4'] else []
  let start := if cs.head?.any isBreak then [] else ['\n']
  '|' :: hint ++ chompMark cs ++ start ++ indentLines indent true cs

/-- A text as a value. -/
def textValue (indent : String) (s : String) : String :=
  let cs := s.toList
  String.ofList <|
    if cs.contains '\n' then (if fitsLines cs then literal indent.toList cs else doubleQuote cs)
    else if !readsAsText s then doubleQuote cs
    else if fitsPlain cs then cs
    else if fitsSingle cs then singleQuote indent.toList cs
    else doubleQuote cs

/-! ## Bytes -/

def letterLine : Nat := 70

/-- Letters in lines, each with its end. -/
def lettersInLines : (fuel : Nat) → List Char → List Char
  | 0, _ => []
  | _, [] => []
  | fuel + 1, cs => cs.take letterLine ++ '\n' :: lettersInLines fuel (cs.drop letterLine)

/-- Bytes as letters, on one line if it is short. -/
def bytesValue (indent : String) (bs : List UInt8) : String :=
  let cs := Text.encodeBase64 bs
  let letters := if cs.length < letterLine then cs
    else literal indent.toList (lettersInLines cs.length cs)
  "!!binary " ++ String.ofList letters

/-! ## Options -/

def setting (indent key v : String) : String :=
  indent ++ key ++ ": " ++ v ++ (if v.toList.getLast?.any isBreak then "" else "\n")

def sectionText (key : String) (settings : List String) : String :=
  if settings.all (· = "") then "" else key ++ ":\n" ++ String.join settings

def inner : String := "    "

/-- A text inside a section, unless it is empty. -/
def textSetting (key : String) (t : RawText) : String :=
  if t = [] then ""
  else setting inner key (if t.isText then textValue (inner ++ inner) t.shown
    else bytesValue (inner ++ inner) t.bytes)

def intSetting (key : String) (n : Int) : String :=
  if n = 0 then "" else setting inner key (toString n)

def boolText (b : Bool) : String := if b then "true" else "false"

/-- All options that have been set. -/
def write (o : Options) : String :=
  let text :=
    sectionText "log" [intSetting "verbosity" o.log.verbosity, textSetting "file" o.log.file]
      ++ sectionText "explain"
        [(o.explain.enabled.map fun b => setting inner "enabled" (boolText b)).getD "",
          intSetting "max_depth" o.explain.maxDepth]
      ++ sectionText "render" [textSetting "color" o.render.color]
      ++ (if o.verifyScopes then setting "" "verify_scopes" (boolText true) else "")
      ++ sectionText "exports" [textSetting "database" o.exports.database]
  if text = "" then "\x7b\x7d\n" else text

end RegionCapture.Yaml
