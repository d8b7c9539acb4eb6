import RegionCapture.Files
import RegionCapture.Options.Toml.Reader
import RegionCapture.Options.Yaml.Reader

/-!
# Loading options

Options come from a file next to the program's sources or in a directory around them. A file is read
as TOML or YAML by the end of its name, its settings are checked, defaults are filled in, and the
path of the database is taken from the directory of the file.
-/

namespace RegionCapture

/-- Why options cannot be loaded. -/
inductive OptionsError where
  | unreadable (path : RawText) (e : FileError)
  /-- the file is no document of options -/
  | malformed (path : RawText)
  /-- two keys of the file cannot be told apart -/
  | incomparableKey (path : RawText)
  | negativeVerbosity (path : RawText)
  | negativeDepth (path : RawText)
  | unknownColor (path color : RawText)
deriving DecidableEq

/-- The text an error is reported with. -/
def OptionsError.message : OptionsError → String
  | unreadable path e => "reading options " ++ path.shown ++ ": " ++ e.readMessage path
  | malformed path => "parsing " ++ path.shown
  | incomparableKey path => "parsing " ++ path.shown ++ ": a key is no scalar"
  | negativeVerbosity path => path.shown ++ ": log.verbosity must not be negative"
  | negativeDepth path => path.shown ++ ": explain.max_depth must not be negative"
  | unknownColor path color =>
    path.shown ++ ": render.color must be one of " ++ ", ".intercalate colorModes ++ "; got " ++
      color.quote

namespace Options

/-- Checks the settings of a file, the first that cannot be meant is reported. -/
def validate (path : RawText) (o : Options) : Except OptionsError Unit :=
  if o.log.verbosity < 0 then .error (.negativeVerbosity path)
  else if o.explain.maxDepth < 0 then .error (.negativeDepth path)
  else if o.render.color ≠ [] ∧
    o.render.color ∉ colorModes.map RawText.ofString then .error (.unknownColor path o.render.color)
  else .ok ()

/-- Takes a relative path of the database from the directory of the options file. -/
def locate (path : RawText) (o : Options) : Options :=
  let db := o.exports.database
  if db = [] ∨ Path.isAbsolute db ∨ db = memoryPath then o
  else { o with exports.database := Path.join (Path.directory path) db }

/-- The settings in a text; the end of the file's name tells the format. Case does not matter in the
keys of TOML. -/
def read (path : RawText) (src : String) : Except DocumentError Options := do
  let (fold, d) ←
    if Path.extension path = (".toml" : RawText) then pure (Toml.foldKey, ← Toml.read src)
    else pure (id, ← Yaml.read src)
  match ofDocument? fold d with
  | some o => return o
  | none => throw .malformed

/-- The options in a text that was read from a path (`ParseOptions`). -/
def parse (path : RawText) (src : String) : Except OptionsError Options := do
  match read path src with
  | .error .malformed => .error (.malformed path)
  | .error .incomparableKey => .error (.incomparableKey path)
  | .ok o =>
    o.validate path
    return o.withDefaults.locate path

def fileName : String := "regionck.yaml"

/-- The names an options file may have, the first one found counts. -/
def fileNames : List String := [fileName, "regionck.yml", "regionck.toml"]

/-- All paths at which the options of a directory are looked for, in order. -/
def candidates (cwd dir : RawText) : List RawText :=
  (Path.ancestors (Path.absolute cwd dir)).flatMap fun d => fileNames.map fun name : String =>
    Path.join d name

variable {m : Type → Type} [Monad m]

/-- The options file of a directory, if there is one (`FindOptions`). -/
def find (host : Host m) (dir : RawText) : m (Option RawText) := do
  (candidates (← host.workingDirectory) dir).findM? host.isPresent

/-- The options in a file (`LoadOptions`). -/
def load (host : Host m) (path : RawText) : m (Except OptionsError Options) := do
  match ← host.readFile path with
  | .error e => return .error (.unreadable path e)
  | .ok src => return parse path src

end Options

end RegionCapture
