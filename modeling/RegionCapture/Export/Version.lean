import RegionCapture.Text.Quoted

/-!
# Versions

The layout of a database of signatures has a version: up to three numbers, possibly with a
pre-release and build metadata. A database is accepted if its major version is the current one and
it is no pre-release.
-/

namespace RegionCapture

/-- A layout version. -/
structure Version where
  major : Nat
  minor : Nat
  patch : Nat
  /-- the pre-release, empty if there is none -/
  pre : String
  /-- the build metadata, empty if there is none -/
  build : String
deriving DecidableEq

/-- Why a text is no version. -/
inductive VersionError where
  /-- it has not the form of a version -/
  | malformed
  /-- a numeric part of the pre-release starts with a zero -/
  | leadingZero
  /-- a number has more than 64 bits -/
  | outOfRange (digits : String)
deriving DecidableEq

/-- The text an error is reported with. -/
def VersionError.message : VersionError → String
  | malformed => "Invalid Semantic Version"
  | leadingZero => "Version segment starts with 0"
  | outOfRange digits =>
    "Error parsing version segment: strconv.ParseUint: parsing " ++ Text.quote digits ++
      ": value out of range"

namespace Version

open Text (isDigit)

/-- A character of a pre-release or of build metadata. -/
def isLabelChar (c : Char) : Bool :=
  isDigit c || ('a' ≤ c && c ≤ 'z') || ('A' ≤ c && c ≤ 'Z') || c = '-' || c = '.'

/-- The parts of a label between its dots. -/
def parts (cs : List Char) : List (List Char) := cs.splitOn '.'

/-- The longest label at the start of a text after a mark; there is none if a part of it is
empty. -/
def label (mark : Char) : List Char → Option (List Char × List Char)
  | [] => some ([], [])
  | c :: rest =>
    if c = mark then
      let l := rest.takeWhile isLabelChar
      if (parts l).any List.isEmpty then none else some (l, rest.dropWhile isLabelChar)
    else some ([], c :: rest)

/-- The digits of a further number after a dot, none if no number follows. -/
def further : List Char → List Char × List Char
  | '.' :: c :: rest =>
    if isDigit c then ((c :: rest).takeWhile isDigit, (c :: rest).dropWhile isDigit)
      else ([], '.' :: c :: rest)
  | cs => ([], cs)

/-- The number written by digits; no digits stand for zero. -/
def number (digits : List Char) : Except VersionError Nat :=
  let n := digits.foldl (fun acc c => acc * 10 + (c.toNat - 48)) 0
  if n < 0x10000000000000000 then .ok n else .error (.outOfRange (String.ofList digits))

/-- Whether a part of a pre-release is a number with a superfluous zero. -/
def hasLeadingZero (part : List Char) : Bool :=
  part.all isDigit && 1 < part.length && part.head? = some '0'

/-- Reads a version. -/
def parse (s : String) : Except VersionError Version :=
  let cs := match s.toList with
    | 'v' :: rest => rest
    | cs => cs
  let major := cs.takeWhile isDigit
  let (minor, rest) := further (cs.dropWhile isDigit)
  let (patch, rest) := if minor.isEmpty then ([], rest) else further rest
  match label '-' rest with
  | none => .error .malformed
  | some (pre, rest) =>
    match label '+' rest with
    | some (build, []) =>
      if major.isEmpty then .error .malformed
      else do
        let major ← number major
        let minor ← number minor
        let patch ← number patch
        if !pre.isEmpty && (parts pre).any hasLeadingZero then .error .leadingZero
        else return { major, minor, patch, pre := String.ofList pre, build := String.ofList build }
    | _ => .error .malformed

def text (v : Version) : String :=
  toString v.major ++ "." ++ toString v.minor ++ "." ++ toString v.patch
    ++ (if v.pre = "" then "" else "-" ++ v.pre) ++ (if v.build = "" then "" else "+" ++ v.build)

/-- Whether a database of this version can be read (`compatible`). -/
def isCompatible (v : Version) : Bool := v.major = 1 && v.pre = ""

end Version

end RegionCapture
