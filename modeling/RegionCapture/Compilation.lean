import RegionCapture.Check
import RegionCapture.Files

/-!
# Compilation units

A unit goes through stages: the check annotates it, and the export records what other units may know
of it. A unit with errors goes no further, so a rejected unit leaves nothing behind.
-/

namespace RegionCapture

/-- Why a unit goes no further. -/
inductive UnitError where
  | rejected (d : Diagnostic)
  | exports (e : ExportError)
  /-- an error of another stage -/
  | other (message : String)

def UnitError.message : UnitError → String
  | rejected d => d.text
  | exports e => "exports: " ++ e.message
  | other message => message

/-- An error for a reader (`Render`): a diagnostic with its trace, any other error as it is. -/
def UnitError.render (style : Style) : UnitError → String
  | rejected d => d.render style
  | e => e.message ++ "\n"

/-- What a caller says about the work it asks for. -/
structure Request where
  /-- whether the work is no longer wanted -/
  cancelled : Bool := false

/-- One unit on its way through the stages. -/
structure CompilationUnit where
  symbols : SymbolTable := {}
  /-- the region variables of earlier passes; without them every check starts with none -/
  table : Option Table := none
  module : Option Module := none
  options : Option Options := some .default
  /-- where diagnostics are rendered to, if anywhere -/
  diagnostics : Option Sink := none
  /-- the request that the unit belongs to, if any -/
  request : Option Request := some {}
  runId : RunId := .nil
  annotations : Option Annotations := none
  errors : List UnitError := []

/-- What outlives a unit: the files, and how many checks have been run. -/
structure World where
  files : FileTree := {}
  runs : Nat := 0
  /-- whether the program runs under tests -/
  testing : Bool := false

/-- Work of a stage. A fault ends it, but what it did to the world stays. -/
abbrev StageM := ExceptT Fault (StateM World)

abbrev Stage := CompilationUnit → StageM CompilationUnit

namespace World

/-- The identity of a new run, different from all earlier ones. -/
def newRun : StageM RunId := do
  let w ← get
  set { w with runs := w.runs + 1 }
  return .ofNat (w.runs + 1)

def openDatabase (path : RawText) : StageM (Except ExportError Database) := do
  let w ← get
  let (d, files) := w.files.openDatabase path
  set { w with files }
  return d

def putDatabase (path : RawText) (d : Database) : StageM Unit :=
  modify fun w => { w with files := w.files.putDatabase path d }

end World

namespace CompilationUnit

def fail (u : CompilationUnit) (e : UnitError) : CompilationUnit :=
  { u with errors := u.errors ++ [e] }

/-- Whether the work on a unit is no longer wanted. Work that nobody asked for cannot be
cancelled. -/
def cancelled (u : CompilationUnit) : Bool := (u.request.getD {}).cancelled

/-- Renders an error where the unit wants it, in the colors its options ask for. Where nothing can
be written nothing is. -/
def render (u : CompilationUnit) (testing : Bool) (e : UnitError) : Except Fault CompilationUnit :=
  match u.diagnostics, u.options with
  | none, _ => .ok u
  | some _, none => .error .absentPart
  | some sink, some o =>
    match sink.write (e.render (Style.choose testing o.render.color.shown false)) with
    | .ok sink => .ok { u with diagnostics := some sink }
    | .error _ => .ok u

/-- Checks the module of a unit without errors and annotates it, or reports why it is rejected
(`RegionCheckerProcessor`). The log takes no debug messages here; `checkLogged` is the check where
it does. -/
def check : Stage := fun u => do
  match u.module with
  | none => return u
  | some m =>
    if !u.errors.isEmpty then return u
    else
      let id ← World.newRun
      let (outcome, table) := RegionCapture.check u.symbols (u.options.getD .default)
        (u.table.getD {}) m
      let u := { u with table := u.table.map fun _ => table }
      match outcome with
      | .ok report => return { u with runId := id, annotations := some report.annotations }
      | .error (.fault f) => throw f
      | .error (.rejected d) => (u.fail (.rejected d)).render (← get).testing (.rejected d)

/-- Records the exported signatures of a checked unit, if its options name a database
(`ExportProcessor`). -/
def exportSignatures : Stage := fun u => do
  match u.annotations, u.module, u.options with
  | some a, some m, some o =>
    if !u.errors.isEmpty || o.exports.database = [] then return u
    else
      match ← World.openDatabase o.exports.database with
      | .error e => return u.fail (.exports e)
      | .ok d =>
        match d.save u.cancelled (Signature.collect m.name u.symbols a u.runId) with
        | .error e => return u.fail (.exports e)
        | .ok d =>
          World.putDatabase o.exports.database d
          return u
  | _, _, _ => return u

/-- Sends a unit through stages until one leaves it with errors, and counts the stages that ran
(`Run` of a pipeline). -/
def run : List Stage → CompilationUnit → StageM (CompilationUnit × Nat)
  | [], u => return (u, 0)
  | stage :: stages, u => do
    let u ← stage u
    if u.errors.isEmpty then
      let (u, n) ← run stages u
      return (u, n + 1)
    else return (u, 1)

end CompilationUnit

end RegionCapture
