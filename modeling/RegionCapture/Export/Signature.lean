import RegionCapture.Annotations
import RegionCapture.Export.RunId

/-!
# Exported signatures

What other units may know of a checked unit: for each exported name, the regions its definition
captures. The regions are given by the names of their owners, since their numbers mean nothing
outside the unit.
-/

namespace RegionCapture

/-- The exported regions of one definition. -/
structure Signature where
  module : String
  symbol : String
  kind : String
  /-- the names of the owners, if the record has a list of them at all -/
  regions : Option (List String)
  runId : RunId
deriving DecidableEq

namespace Signature

/-- The signature of a symbol that captures the given regions. -/
def ofSymbol (module : String) (symbols : SymbolTable) (runId : RunId) (s : Symbol)
    (regs : RegionSet) :
    Signature where
  module := module
  symbol := s.name
  kind := s.kind.text
  regions := some (regs.elems.map fun r => symbols.name r.owner)
  runId := runId

/-- The exported symbols that other units can name and that are annotated, with their
annotations. -/
def nameable (symbols : SymbolTable) (a : Annotations) : List (Symbol × RegionSet) :=
  symbols.exported.filterMap fun (id, s) =>
    if s.kind = .lambda then none else (a.symbol? id).map fun regs => (s, regs)

/-- The first entry of each name, in order. -/
def firstOfName (seen : List String) : List (Symbol × RegionSet) → List (Symbol × RegionSet)
  | [] => []
  | e :: es =>
    if seen.contains e.1.name then firstOfName seen es else e :: firstOfName (e.1.name :: seen) es

/-- One signature for each nameable name (`Collect`); of symbols that share a name the first
declared one counts. -/
def collect (module : String) (symbols : SymbolTable) (a : Annotations)
    (runId : RunId) : List Signature :=
  (firstOfName [] (nameable symbols a)).map fun e => ofSymbol module symbols runId e.1 e.2

end Signature

end RegionCapture
