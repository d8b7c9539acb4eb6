import RegionCapture.Export.Database

/-!
# Databases as text

In a file a database is one line per fact, each a list of texts: first the version of the layout, if
it is written down, then the rows.
-/

namespace RegionCapture.Database

/-- The line that every stored database starts with. -/
def heading : String := "exported region signatures"

/-- All rows with their keys, in order. -/
def allRows (d : Database) : List (String × String × Row) :=
  d.rows.toList.flatMap fun (module, rows) => rows.toList.map fun (symbol, row) =>
    (module, symbol, row)

def rowTexts : String × String × Row → List String
  | (module, symbol, row) => [module, symbol, row.kind, row.regions, row.runId]

def rowOfTexts? : List String → Option (String × String × Row)
  | [module, symbol, kind, regions, runId] => some (module, symbol, { kind, regions, runId })
  | _ => none

def encode (d : Database) : String :=
  String.join ((heading :: Text.StringList.encode d.schema.toList
    :: d.allRows.map fun r => Text.StringList.encode (rowTexts r)).map fun l => l ++ "\n")

def lineTexts? (line : List Char) : Option (List String) := do
  (← Text.StringList.decode (String.ofList line))

/-- The version of the layout that a line gives. -/
def schemaOfTexts? : List String → Option (Option String)
  | [] => some none
  | [v] => some (some v)
  | _ => none

/-- Reads a stored database. -/
def decode? (s : String) : Option Database := do
  match s.toList.splitOn '\n' with
  | first :: schema :: rest =>
    if first ≠ heading.toList then none
    else
      let schema ← lineTexts? schema >>= schemaOfTexts?
      let rows ← (rest.filter fun l => !l.isEmpty).mapM fun l => lineTexts? l >>= rowOfTexts?
      return rows.foldl (fun d (module, symbol, row) => d.put module symbol row) { schema }
  | _ => none

end RegionCapture.Database
