import RegionCapture.Export.Database
import RegionCapture.Path

/-!
# Files

The program looks for options files, reads them, opens a log and opens databases. What it needs of
its surroundings is a `Host`; a `FileTree` is one that is a value, with directories and files under
absolute paths.
-/

namespace RegionCapture

/-- Why a file cannot be used. -/
inductive FileError where
  /-- there is no such file -/
  | missing
  /-- a directory on the way is none -/
  | notDirectory
  /-- the file is a directory -/
  | isDirectory
  /-- the file may not be used -/
  | denied
  /-- no file can have so long a name -/
  | nameTooLong
  /-- no file can have such a name -/
  | badName
deriving DecidableEq

namespace FileError

/-- The cause in words. -/
def reason : FileError → String
  | missing => "no such file or directory"
  | notDirectory => "not a directory"
  | isDirectory => "is a directory"
  | denied => "permission denied"
  | nameTooLong => "file name too long"
  | badName => "invalid argument"

/-- The text with which it is reported that a file cannot be opened. -/
def openMessage (path : RawText) (e : FileError) : String :=
  "open " ++ path.shown ++ ": " ++ e.reason

/-- The text with which it is reported that a file cannot be read: a directory can be opened, but
not read. -/
def readMessage (path : RawText) (e : FileError) : String :=
  if e = isDirectory then "read " ++ path.shown ++ ": " ++ e.reason else e.openMessage path

end FileError

/-- What the program needs of its surroundings. -/
structure Host (m : Type → Type) where
  /-- the directory that relative paths are meant from -/
  workingDirectory : m RawText
  /-- whether a path names a file or a directory -/
  isPresent : RawText → m Bool
  readFile : RawText → m (Except FileError String)
  /-- opens a file for more text at its end; it is made if it is missing -/
  openLog : RawText → m (Except FileError Unit)
  /-- the database in a file, which is made if it is missing -/
  openDatabase : RawText → m (Except ExportError Database)

/-- The path of databases that live in memory only. -/
def memoryPath : RawText := ":memory:"

/-- What a file holds. -/
inductive Content where
  | text (s : String)
  | database (d : Database)

/-- Directories and files under clean absolute paths. -/
structure FileTree where
  directories : List RawText := ["/"]
  files : List (RawText × Content) := []

namespace FileTree

instance : Inhabited FileTree := ⟨{}⟩

/-- What the file at a clean path holds. -/
def content? (t : FileTree) (path : RawText) : Option Content := t.files.lookup path

/-- Puts a file in place of any earlier one at a clean path. -/
def put (t : FileTree) (path : RawText) (c : Content) : FileTree :=
  { t with files := (path, c) :: t.files.filter fun f => f.1 ≠ path }

def addDirectory (t : FileTree) (path : RawText) : FileTree :=
  { t with
    directories := (Path.ancestors path).foldl (fun ds d => if ds.contains d then ds
    else d :: ds) t.directories }

/-- Puts a file in place of any earlier one, with the directories around it. -/
def addFile (t : FileTree) (path : RawText) (c : Content) : FileTree :=
  (t.addDirectory (Path.directory path)).put (Path.clean path) c

/-! ## Names -/

/-- How many bytes the name of a file may have. -/
def nameLimit : Nat := 255

/-- How many bytes a path may have. -/
def pathLimit : Nat := 4095

/-- Follows one element of a path, which needs a directory to start from. -/
def follow (t : FileTree) (stack : List Path.Part) (part : Path.Part) :
    Except FileError (List Path.Part) :=
  let here := Path.ofStack true stack
  if t.directories.contains here then
    if nameLimit < part.bytes.length then .error .nameTooLong else .ok (Path.push true stack part)
  else if (t.content? here).isSome then .error .notDirectory
  else .error .missing

/-- The clean path of what a path leads to, element by element; the last element may be missing. -/
def resolve (t : FileTree) (path : RawText) : Except FileError RawText := do
  if path.contains (.char (Char.ofNat 0)) then .error .badName
  else if pathLimit < path.bytes.length then .error .nameTooLong
  else return Path.ofStack true (← (path.splitOn Path.slash).foldlM t.follow [])

/-! ## Files -/

/-- Whether a path names a file or a directory. -/
def isPresent (t : FileTree) (path : RawText) : Bool :=
  match t.resolve path with
  | .ok p => t.directories.contains p || (t.content? p).isSome
  | .error _ => false

/-- The text of a file. The text of a database is one that no options file has. -/
def readFile (t : FileTree) (path : RawText) : Except FileError String := do
  let p ← t.resolve path
  if t.directories.contains p then .error .isDirectory
  else match t.content? p with
    | some (.text s) => .ok s
    | some (.database _) => .ok "\x00"
    | none => .error .missing

/-- Opens a file for more text at its end; a missing one is made. A path with a slash at its end
names no file. -/
def openLog (t : FileTree) (path : RawText) : Except FileError Unit × FileTree :=
  let slashed := path.getLast? = some Path.slash
  match t.resolve (path.reverse.dropWhile (· = Path.slash)).reverse with
  | .error e => (.error e, t)
  | .ok p =>
    if slashed || t.directories.contains p then (.error .isDirectory, t)
    else if (t.content? p).isSome then (.ok (), t)
    else (.ok (), t.put p (.text ""))

/-! ## Databases -/

/-- The database at the path of an existing file, or a fresh one. A file of a single byte at most is
fresh too. -/
def stored (t : FileTree) (readOnly : Bool) (path : RawText) : Except ExportError Database :=
  let fresh := if readOnly then .error .readOnly else .ok {}
  if t.directories.contains path then .error .unopenable
  else match t.content? path with
    | none => fresh
    | some (.text s) => if s.utf8ByteSize ≤ 1 then fresh else .error .notDatabase
    | some (.database d) => .ok d

/-- Opens the database at an address. A missing file becomes a fresh database; in memory, every
database is fresh and leaves nothing behind. -/
def openAt (t : FileTree) (a : Address) : Except ExportError Database × FileTree :=
  let checked (d : Except ExportError Database) : Except ExportError Database := do
    let d ← d
    match a.check with
    | .ok () => d.adopt
    | .error e => .error (.badAddress e)
  match a.way?, t.resolve a.file with
  | .error e, _ => (.error (.badAddress e), t)
  | .ok _, .error _ => (.error .unopenable, t)
  | .ok _, .ok p =>
    if a.isInMemory then (checked (.ok {}), t)
    else match checked (t.stored a.isReadOnly p) with
      | .ok d => (.ok d, t.put p (.database d))
      | .error e => (.error e, t)

/-- Opens the database that a path gives the address of. -/
def openDatabase (t : FileTree) (path : RawText) : Except ExportError Database × FileTree :=
  if path = memoryPath then (({} : Database).adopt, t)
  else match Address.ofPath path with
    | .ok a => t.openAt a
    | .error e => (.error (.badAddress e), t)

/-- Stores a database in its file; one in memory is not stored. -/
def putDatabase (t : FileTree) (path : RawText) (d : Database) : FileTree :=
  if path = memoryPath then t
  else match Address.ofPath path with
    | .error _ => t
    | .ok a => match t.resolve a.file with
      | .ok p => t.put p (.database d)
      | .error _ => t

/-- A tree of files as surroundings, seen from a working directory. -/
def host (cwd : RawText) : Host (StateM FileTree) where
  workingDirectory := pure cwd
  isPresent path := do return (← get).isPresent (Path.absolute cwd path)
  readFile path := do return (← get).readFile (Path.absolute cwd path)
  openLog path := do
    let (opened, t) := (← get).openLog (if Path.isAbsolute path then path
      else cwd ++ Path.slash :: path)
    set t
    return opened
  openDatabase path := do
    let (d, t) := (← get).openDatabase (if path = memoryPath then path else Path.absolute cwd path)
    set t
    return d

end FileTree

end RegionCapture
