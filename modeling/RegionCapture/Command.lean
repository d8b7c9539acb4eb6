import RegionCapture.Diagnostic
import RegionCapture.Options.Load
import RegionCapture.Options.Yaml.Printer

/-!
# The command line

Three commands show what the program knows: the options in force, the codes of diagnostics, and the
recorded signatures of a module.
-/

namespace RegionCapture.Command

/-- What a run of the program leaves to see. -/
structure Output where
  exit : UInt32 := 0
  stdout : String := ""
  stderr : String := ""
deriving DecidableEq

def succeed (stdout : String) : Output := { stdout }

def failWith (message : String) : Output := { exit := 1, stderr := "Error: " ++ message ++ "\n" }

def failLog (path : RawText) (e : FileError) : Output :=
  { exit := 1, stderr := "log file error: " ++ e.openMessage path ++ "\n" }

/-- How the program is used. -/
def usageText (program : String) : String :=
  "Usage:\n"
    ++ "  " ++ program ++ " config [dir]                    print the effective options\n"
    ++ "  " ++ program ++ " codes                           list diagnostic codes\n"
    ++ "  " ++ program ++ " exports list <module>           list recorded signatures of a module\n"
    ++ "  " ++ program ++ " exports show <module> <symbol>  show one recorded signature\n"

def usage (program : String) : Output := { exit := 2, stderr := usageText program }

def codes : Output :=
  succeed (String.join (Code.known.map fun c => c.text ++ "  " ++ c.description ++ "\n"))

def signatureText (s : Signature) : String :=
  s.kind ++ " " ++ s.module ++ "." ++ s.symbol ++ " \x7b" ++
    ", ".intercalate (s.regions.getD []) ++ "\x7d\n"

variable {m : Type → Type} [Monad m]

/-- The options in force in a directory, and the file they come from. -/
def optionsFor (host : Host m) (dir : RawText) :
    m (Except OptionsError (Options × Option RawText)) := do
  match ← Options.find host dir with
  | none => return .ok (.default, none)
  | some path => return (← Options.load host path).map (·, some path)

/-- Prints the options in force in a directory. -/
def config (host : Host m) (dir : RawText) : m Output := do
  match ← optionsFor host dir with
  | .error e => return failWith e.message
  | .ok (o, path) =>
    let source := match path with
      | none => "# no options file found, using defaults\n"
      | some path => "# " ++ path.shown ++ "\n"
    return succeed (source ++ Yaml.write o)

/-- Answers a question about recorded signatures. -/
def query (program : String) (d : Database) : List String → Output
  | ["list", module] =>
    match d.list false module with
    | .ok sigs => succeed (String.join (sigs.map signatureText))
    | .error e => failWith e.message
  | ["show", module, symbol] =>
    match d.lookup false module symbol with
    | .ok s => succeed (signatureText s ++ "  run " ++ s.runId.text ++ "\n")
    | .error .notFound =>
      { exit := 1, stderr := module ++ "." ++ symbol ++ ": no recorded signature\n" }
    | .error e => failWith e.message
  | _ => usage program

/-- Opens the log that the options name, if they name one. -/
def openLog (host : Host m) (o : Options) : m (Except FileError Unit) :=
  if o.log.file = [] then return .ok () else host.openLog o.log.file

/-- Opens the database that the options name and answers a question about it. -/
def answer (host : Host m) (program : String) (o : Options)
    (question : List String) : m Output := do
  if o.exports.database = []
    then return failWith ("exports.database is not set in " ++ Options.fileName)
  else
    match ← host.openDatabase o.exports.database with
    | .error e => return failWith e.message
    | .ok d => return query program d question

/-- Answers a question about the database, with a log. -/
def exports (host : Host m) (program : String) (question : List String) : m Output := do
  match ← optionsFor host "." with
  | .error e => return failWith e.message
  | .ok (o, _) =>
    match ← openLog host o with
    | .error e => return failLog o.log.file e
    | .ok () => answer host program o question

/-- Runs the program with its arguments. -/
def run (host : Host m) (program : String) (args : List String) : m Output :=
  match args with
  | "config" :: rest => config host (rest.headD ".")
  | "codes" :: _ => return codes
  | "exports" :: word :: rest => exports host program (word :: rest)
  | _ => return usage program

end RegionCapture.Command
