import RegionCapture.Options

/-!
# Options as a document

A file of options is a document of nested tables. What a scalar says depends on what is asked of it:
a written `yes` may be a truth value to one setting and a text to another. So a scalar carries its
readings, and the settings choose among them. Keys that name no setting are passed over.
-/

namespace RegionCapture

/-- What a written scalar says to each kind of setting; a missing reading means that it cannot be
read so. -/
structure Scalar where
  /-- whether the scalar leaves the setting as it is -/
  blank : Bool := false
  bool : Option Bool := none
  int : Option Int := none
  text : Option RawText := none
deriving DecidableEq, Inhabited

/-- A document of options, or a part of it. -/
inductive Document where
  | scalar (s : Scalar)
  | list (items : List Document)
  | table (entries : List (String × Document))

/-- Why a text is no document of options. -/
inductive DocumentError where
  /-- it breaks the rules of its format, or a setting cannot be read -/
  | malformed
  /-- a mapping that takes in another one has a key that cannot be compared with the other keys -/
  | incomparableKey
deriving DecidableEq

/-! ## Shapes -/

/-- What a key asks for. -/
inductive Shape where
  | bool
  | int
  | text
  | table (fields : List (String × Shape))

/-- Whether a scalar says something to a setting. -/
def Scalar.fits (s : Scalar) : Shape → Bool
  | .bool => s.bool.isSome
  | .int => s.int.isSome
  | .text => s.text.isSome
  | .table _ => false

/-- What the keys of options ask for. -/
def Options.shape : Shape :=
  .table
    [("log", .table [("verbosity", .int), ("file", .text)]),
     ("explain", .table [("enabled", .bool), ("max_depth", .int)]),
     ("render", .table [("color", .text)]),
     ("verify_scopes", .bool),
     ("exports", .table [("database", .text)])]

/-! ## Settings -/

namespace Document

instance : Inhabited Document := ⟨table []⟩

def blank : Document := scalar { blank := true }

/-- The entries of a table; a blank scalar is a table without entries. -/
def entries? : Document → Option (List (String × Document))
  | table es => some es
  | scalar s => if s.blank then some [] else none
  | list _ => none

/-- A reading of a scalar, or the given value if the scalar is blank. -/
def readAs {α : Type} (reading : Scalar → Option α) (old : α) : Document → Option α
  | scalar s => if s.blank then some old else reading s
  | _ => none

end Document

namespace Options

/-- Sets one option of the log. -/
def setLog (o : LogOptions) (key : String) (v : Document) : Option LogOptions :=
  match key with
  | "verbosity" => do return { o with verbosity := ← v.readAs Scalar.int o.verbosity }
  | "file" => do return { o with file := ← v.readAs Scalar.text o.file }
  | _ => some o

/-- Sets one option of explanations. -/
def setExplain (o : ExplainOptions) (key : String) (v : Document) : Option ExplainOptions :=
  match key with
  | "enabled" => do return { o with enabled := ← v.readAs (fun s => s.bool.map some) none }
  | "max_depth" => do return { o with maxDepth := ← v.readAs Scalar.int o.maxDepth }
  | _ => some o

/-- Sets one option of rendering. -/
def setRender (o : RenderOptions) (key : String) (v : Document) : Option RenderOptions :=
  match key with
  | "color" => do return { o with color := ← v.readAs Scalar.text o.color }
  | _ => some o

/-- Sets one option of exports. -/
def setExports (o : ExportOptions) (key : String) (v : Document) : Option ExportOptions :=
  match key with
  | "database" => do return { o with database := ← v.readAs Scalar.text o.database }
  | _ => some o

/-- Reads a section: a table whose entries set one option each. -/
def readSection {α : Type} (fold : String → String) (set : α → String → Document → Option α) (o : α)
    (v : Document) : Option α := do
  (← v.entries?).foldlM (fun o e => set o (fold e.1) e.2) o

/-- Sets one option, or a section of options. -/
def setOption (fold : String → String) (o : Options) (key : String)
    (v : Document) : Option Options :=
  match key with
  | "log" => do return { o with log := ← readSection fold setLog o.log v }
  | "explain" => do return { o with explain := ← readSection fold setExplain o.explain v }
  | "render" => do return { o with render := ← readSection fold setRender o.render v }
  | "verify_scopes" => do return { o with verifyScopes := ← v.readAs Scalar.bool o.verifyScopes }
  | "exports" => do return { o with exports := ← readSection fold setExports o.exports v }
  | _ => some o

/-- The options that a document sets, if every setting can be read. Keys are compared after
folding. -/
def ofDocument? (fold : String → String) (d : Document) : Option Options :=
  readSection fold (setOption fold) {} d

end Options

end RegionCapture
