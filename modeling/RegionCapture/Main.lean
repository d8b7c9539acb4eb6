import RegionCapture.Command
import RegionCapture.Export.Stored

/-!
# The program

The surroundings of the program are the files of the machine.
-/

namespace RegionCapture.Main

/-- Why a file could not be used. -/
def fileError : IO.Error → FileError
  | .permissionDenied .. => .denied
  | .inappropriateType .. => .notDirectory
  | .invalidArgument .. => .nameTooLong
  | _ => .missing

/-- The text of a file. Bytes that are no text read as one that no options file has. -/
def readText (path : RawText) : IO (Except FileError String) := do
  try
    if ← (← IO.FS.realPath path.shown).isDir then return .error .isDirectory
    let bytes ← IO.FS.readBinFile path.shown
    return .ok ((String.fromUTF8? bytes).getD "\x00")
  catch e => return .error (fileError e)

/-- Whether a path names a file or a directory. -/
def isPresent (path : RawText) : IO Bool := do
  try
    discard (IO.FS.realPath path.shown)
    return true
  catch _ => return false

/-- Opens a file for more text at its end. -/
def openLog (path : RawText) : IO (Except FileError Unit) := do
  try
    if ← isPresent path then
      if ← (← IO.FS.realPath path.shown).isDir then return .error .isDirectory
    discard (IO.FS.Handle.mk path.shown .append)
    return .ok ()
  catch e => return .error (fileError e)

/-- What a file says as a database; a missing file is a fresh one, and so is one of a single byte at
most. -/
def stored : Except FileError String → Except ExportError Database
  | .error .missing => .ok {}
  | .error _ => .error .unopenable
  | .ok s =>
    if s.utf8ByteSize ≤ 1 then .ok {}
    else match Database.decode? s with
      | some d => .ok d
      | none => .error .notDatabase

/-- Opens the database in a file and writes it back with its version. -/
def openFile (path : RawText) : IO (Except ExportError Database) := do
  match stored (← readText path) >>= Database.adopt with
  | .error e => return .error e
  | .ok d =>
    try
      IO.FS.writeFile path.shown d.encode
      return .ok d
    catch _ => return .error .unopenable

/-- Opens the database that a path gives the address of. -/
def openDatabase (path : RawText) : IO (Except ExportError Database) := do
  if path = memoryPath then return ({} : Database).adopt
  match Address.ofPath path with
  | .error e => return .error (.badAddress e)
  | .ok a =>
    match a.way?, a.check with
    | .error e, _ => return .error (.badAddress e)
    | .ok _, .error e => return .error (.badAddress e)
    | .ok _, .ok () => if a.isInMemory then return ({} : Database).adopt else openFile a.file

/-- The machine as surroundings. -/
def host : Host IO where
  workingDirectory := do return ((← IO.currentDir).toString : String)
  isPresent := isPresent
  readFile := readText
  openLog := openLog
  openDatabase := openDatabase

end RegionCapture.Main

/-- Runs a command and prints what it leaves to see. -/
def main (args : List String) : IO UInt32 := do
  let out ← RegionCapture.Command.run RegionCapture.Main.host "regionck" args
  (← IO.getStdout).putStr out.stdout
  (← IO.getStderr).putStr out.stderr
  return out.exit
