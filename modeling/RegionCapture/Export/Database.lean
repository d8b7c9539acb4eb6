import RegionCapture.Export.Address
import RegionCapture.Export.Signature
import RegionCapture.Export.Version
import RegionCapture.Text.StringList

/-!
# The database of signatures

Signatures outlive a run in a database: a table with one row for each module and symbol, and the
version of its layout. Saving replaces the rows of the same symbols, all of them or none. Rows are
listed by module in the order of their symbols.
-/

namespace RegionCapture

/-- Where work is found to be cancelled. -/
inductive CancelPoint where
  | saving | reading | listing
deriving DecidableEq

/-- Why signatures cannot be stored or read. -/
inductive ExportError where
  /-- the symbol was never recorded -/
  | notFound
  /-- the stored version is no version -/
  | unreadableVersion (stored : String) (reason : VersionError)
  /-- the database has another layout -/
  | incompatible (v : Version)
  /-- the address asks for something that there is not -/
  | badAddress (e : AddressError)
  /-- the file cannot be opened or made -/
  | unopenable
  /-- the file has to be made, but nothing may be changed -/
  | readOnly
  /-- the file holds something else -/
  | notDatabase
  /-- the stored regions are no list of names -/
  | badRegions (module symbol : String)
  /-- the stored run identity is none -/
  | badRunId (module symbol : String)
  | cancelled (point : CancelPoint)
deriving DecidableEq

namespace ExportError

/-- The text an error is reported with. -/
def message : ExportError → String
  | notFound => "signature not found"
  | unreadableVersion stored reason =>
    "incompatible export database: schema version " ++ Text.quote stored ++ ": " ++ reason.message
  | incompatible v => "incompatible export database: schema " ++ v.text ++ ", want ^1"
  | badAddress e => "setting busy timeout: " ++ e.message
  | readOnly => "creating table: attempt to write a readonly database (8)"
  | unopenable => "setting busy timeout: unable to open database file: out of memory (14)"
  | notDatabase => "creating table: file is not a database (26)"
  | badRegions module symbol => "decoding regions of " ++ module ++ "." ++ symbol
  | badRunId module symbol => "parsing run id of " ++ module ++ "." ++ symbol
  | cancelled .saving => "starting transaction: context canceled"
  | cancelled .reading => "reading signature: context canceled"
  | cancelled .listing => "listing signatures: context canceled"

end ExportError

/-- A row as it is stored, apart from its key. -/
structure Row where
  kind : String
  /-- the names of the regions, as a JSON list -/
  regions : String
  runId : String
deriving DecidableEq

/-- The rows by module and symbol, and the version of the layout if it is written down. -/
structure Database where
  schema : Option String := none
  rows : Std.TreeMap String (Std.TreeMap String Row) := {}

namespace Database

instance : Inhabited Database := ⟨{}⟩

def currentSchema : String := "1.0.0"

/-- Makes sure of the layout: a database without version gets the current one, any other has to be
compatible. -/
def adopt (d : Database) : Except ExportError Database :=
  match d.schema with
  | none => .ok { d with schema := some currentSchema }
  | some stored =>
    match Version.parse stored with
    | .error reason => .error (.unreadableVersion stored reason)
    | .ok v => if v.isCompatible then .ok d else .error (.incompatible v)

/-- Puts a row in place of any earlier one of the same symbol. -/
def put (d : Database) (module symbol : String) (row : Row) : Database :=
  { d with rows := d.rows.insert module ((d.rows.getD module {}).insert symbol row) }

def row? (d : Database) (module symbol : String) : Option Row := (d.rows.getD module {})[symbol]?

/-- A signature as it is stored. -/
def rowOf (s : Signature) : Row :=
  { kind := s.kind, regions := Text.StringList.encode (s.regions.getD []), runId := s.runId.text }

/-- A stored row as a signature. -/
def read (module symbol : String) (r : Row) : Except ExportError Signature :=
  match Text.StringList.decode r.regions, RunId.parse? r.runId with
  | none, _ => .error (.badRegions module symbol)
  | some _, none => .error (.badRunId module symbol)
  | some regions, some runId => .ok { module, symbol, kind := r.kind, regions, runId }

/-- Records signatures, or nothing at all if the work is cancelled. -/
def save (d : Database) (cancelled : Bool) (sigs : List Signature) : Except ExportError Database :=
  if cancelled then .error (.cancelled .saving)
  else .ok (sigs.foldl (fun d s => d.put s.module s.symbol (rowOf s)) d)

/-- The recorded signature of a symbol. -/
def lookup (d : Database) (cancelled : Bool) (module symbol : String) :
    Except ExportError Signature :=
  if cancelled then .error (.cancelled .reading)
  else match d.row? module symbol with
    | none => .error .notFound
    | some r => read module symbol r

/-- All recorded signatures of a module in the order of their symbols; the first bad row spoils the
list. -/
def list (d : Database) (cancelled : Bool) (module : String) :
    Except ExportError (List Signature) :=
  if cancelled then .error (.cancelled .listing)
  else (d.rows.getD module {}).toList.mapM fun (symbol, r) => read module symbol r

end Database

end RegionCapture
