import RegionCapture.Text.Raw

/-!
# Addresses of databases

The path of a database may carry parameters after a question mark: names and values as in a query,
with escapes for characters that have a meaning there. Few of them matter: the way in which files
are used, the way in which times are written, how transactions start, and statements to run at
first.
-/

namespace RegionCapture

/-- Why an address cannot be used. -/
inductive AddressError where
  /-- a percent sign without two digits -/
  | badEscape (written : RawText)
  /-- parameters are divided by a semicolon -/
  | semicolon
  /-- several ways to use files are asked for -/
  | conflictingWays (names : List RawText)
  /-- nobody knows the way to use files -/
  | unknownWay
  /-- nobody knows the way to write times -/
  | unknownTimeFormat (name : RawText)
  /-- nobody knows how to start a transaction so -/
  | unknownLock (name : RawText)
deriving DecidableEq

def AddressError.message : AddressError → String
  | badEscape written => "invalid URL escape " ++ written.quote
  | semicolon => "invalid semicolon separator in query"
  | conflictingWays names =>
    "conflicting vfs query parameters: [" ++ " ".intercalate (names.map RawText.shown) ++ "]"
  | unknownWay => "SQL logic error: out of memory (1)"
  | unknownTimeFormat name => "unknown _time_format " ++ name.quote
  | unknownLock name => "unknown _txlock " ++ name.quote

/-- Where a database is and how it is used. -/
structure Address where
  file : RawText
  /-- the parameters, in the order in which they are given -/
  parameters : List (RawText × RawText) := []

namespace Address

/-! ## Parameters -/

/-- The number that two hexadecimal digits write. -/
def escapedByte? : Glyph → Glyph → Option UInt8
  | .char a, .char b => (Text.numeral? 16 [a, b]).map Nat.toUInt8
  | _, _ => none

/-- The bytes of a name or a value, with its escapes taken for the bytes that they stand for; a plus
sign is a blank. -/
def unescape : (fuel : Nat) → RawText → Except AddressError (List UInt8)
  | 0, _ => .ok []
  | _, [] => .ok []
  | fuel + 1, g :: rest =>
    if g = .char '%' then
      match rest with
      | a :: b :: after =>
        match escapedByte? a b with
        | some byte => (unescape fuel after).map (byte :: ·)
        | none => .error (.badEscape [g, a, b])
      | _ => .error (.badEscape (g :: rest))
    else (unescape fuel rest).map (RawText.glyphBytes (if g = .char '+' then .char ' ' else g) ++ ·)

def word (t : RawText) : Except AddressError RawText := (unescape t.length t).map RawText.ofBytes

/-- One parameter; without a sign of equality it has no value. -/
def parameter (t : RawText) : Except AddressError (RawText × RawText) := do
  let isEqual (g : Glyph) : Bool := g = .char '='
  return (← word (t.takeWhile (!isEqual ·)), ← word ((t.dropWhile (!isEqual ·)).drop 1))

/-- The parameters of a query. Of several faults a semicolon is reported, else the first. -/
def parameters? (query : RawText) : Except AddressError (List (RawText × RawText)) :=
  let parts := (query.splitOn (.char '&')).filter (!·.isEmpty)
  if parts.any (·.contains (.char ';')) then .error .semicolon else parts.mapM parameter

/-! ## Addresses -/

/-- The address that a path gives. A question mark at its start is a part of the name, and no name
goes on after a zero byte. -/
def ofPath (path : RawText) : Except AddressError Address := do
  let isQuestion (g : Glyph) : Bool := g = .char '?'
  let name := path.takeWhile (!isQuestion ·)
  let (name, query) := if name.isEmpty then (path, [])
    else (name, (path.dropWhile (!isQuestion ·)).drop 1)
  return { file := name.takeWhile (· ≠ .char (Char.ofNat 0)), parameters := ← parameters? query }

def values (a : Address) (name : String) : List RawText :=
  (a.parameters.filter fun p => p.1 = (name : RawText)).map Prod.snd

/-- The first value of a parameter, unless it is empty. -/
def value? (a : Address) (name : String) : Option RawText :=
  ((a.values name).head?).filter (!·.isEmpty)

/-- The ways to use files. -/
def ways : List String := ["unix", "unix-none", "unix-dotfile", "unix-excl", "memdb"]

/-- The way to use files that is asked for. -/
def way? (a : Address) : Except AddressError (Option RawText) :=
  match (a.values "vfs").filter (!·.isEmpty) with
  | [] => .ok none
  | w :: more =>
    if more.any (· ≠ w) then .error (.conflictingWays (a.values "vfs"))
    else if ways.any fun known => w = (known : RawText) then .ok (some w)
    else .error .unknownWay

def isInMemory (a : Address) : Bool :=
  a.way? matches .ok (some _) && (a.values "vfs").contains ("memdb" : RawText)

/-- The kinds of lock that a change can begin with. -/
def locks : List String := ["deferred", "immediate", "exclusive"]

/-- Checks what can be asked for besides the file: one form of times, and a known kind of lock in
letters of any case. -/
def check (a : Address) : Except AddressError Unit := do
  match (a.value? "_time_format").filter (· ≠ ("sqlite" : RawText)) with
  | some form => throw (AddressError.unknownTimeFormat form)
  | none => pure ()
  match (a.value? "_txlock").filter (fun lock => !locks.contains (lock.shown.map Char.toLower)) with
  | some lock => throw (AddressError.unknownLock lock)
  | none => pure ()

/-- Whether a statement that is run at first forbids changes. -/
def isReadOnly (a : Address) : Bool :=
  (a.values "_pragma").any fun p =>
    let s := p.shown.map Char.toLower
    ["query_only(1)", "query_only=1", "query_only(on)", "query_only=on", "query_only(true)",
      "query_only=true", "query_only(yes)", "query_only=yes"].contains s

end Address

end RegionCapture
