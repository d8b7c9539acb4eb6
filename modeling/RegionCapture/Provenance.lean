import RegionCapture.Annotations
import RegionCapture.Diagnostic
import RegionCapture.Tree.Walk
import RegionCapture.Ty.Format

/-!
# Provenance

Why does a value mention a region? The annotated tree is searched from the top for the expressions
that carry the region: functions and blocks that close over it, references to its owner or to a
symbol that captures it, and returned values whose type mentions it. Such an expression becomes an
item of the trace, and what explains it is nested below. Other nodes are entered only if their
annotation mentions the region, and nesting is cut at a given number of levels.
-/

namespace RegionCapture

/-- What a search for provenance reads. -/
structure Provenance where
  symbols : SymbolTable
  annotations : Annotations
  table : Table
  /-- how deep items may nest -/
  maxDepth : Int

namespace Provenance

def regionName (p : Provenance) (r : Region) : String := p.symbols.name r.owner

def describe (p : Provenance) (s : RegionSet) : String := s.format p.regionName

/-- A type with its known slots filled in and its regions named by their owners. -/
def typeText (p : Provenance) (t : Ty) : Except Fault String := t.format p.table p.regionName

def mentions (p : Provenance) (info : Anchor) (r : Region) : Bool :=
  p.annotations.mentions info.id r

/-- The trace of a reference: it names the owner of the region, or a symbol that captures it. -/
def refTrace (p : Provenance) (r : Region) (info : Anchor) (symbol : SymbolId) : Trace :=
  if symbol = r.owner then [⟨info.token, "'" ++ p.regionName r ++ "' is used here", []⟩]
  else if (p.annotations.symbol? symbol).any fun s => s.contains r then
    let s := (p.symbols.lookup symbol).getD {}
    [⟨info.token, "The " ++ s.kind.text ++ " '" ++ s.name ++ "' captures '" ++
      p.regionName r ++ "'", []⟩]
  else []

mutual
/-- The trace of how a region reaches a node, with at most `levels` levels (`explain`, with the
items of `specialized`). -/
def trace (p : Provenance) (r : Region) : (levels : Nat) → Tree → Except Fault Trace
  | _, .hole => .ok []
  | 0, _ => .ok []
  | levels + 1, .function info symbol _ _ _ body =>
    if p.mentions info r then do
      let below ← p.trace r levels body
      return [⟨info.token,
        "The function '" ++ p.symbols.name symbol ++ "' closes over '" ++ p.regionName r ++ "'",
        below⟩]
    else .ok []
  | levels + 1, .lambda info _ _ _ _ _ body =>
    if p.mentions info r then do
      let below ← p.trace r levels body
      return [⟨info.token, "The anonymous function closes over '" ++ p.regionName r ++ "'", below⟩]
    else .ok []
  | levels + 1, .blockArg info _ _ body =>
    if p.mentions info r then do
      let below ← p.trace r levels body
      return [⟨info.token, "This block closes over '" ++ p.regionName r ++ "'", below⟩]
    else .ok []
  | _ + 1, .ref info symbol => .ok (p.refTrace r info symbol)
  | levels + 1, .ret info value type => do
    if (← type.freeRegions p.table).contains r then
      let below ← p.trace r levels value
      let type ← p.typeText type
      return [⟨info.token,
        "The returned value has type " ++ type ++ ", which mentions '" ++ p.regionName r ++ "'",
        below⟩]
    else if p.mentions info r then p.trace r (levels + 1) value
    else return []
  | levels + 1, .module info _ defs _ =>
    if p.mentions info r then p.traceAll r (levels + 1) defs else .ok []
  | levels + 1, .handle info body handlers _ =>
    if p.mentions info r then do
      let first ← p.trace r (levels + 1) body
      return first ++ (← p.traceHandlers r (levels + 1) handlers)
    else .ok []
  | levels + 1, .cell info _ init =>
    if p.mentions info r then p.trace r (levels + 1) init else .ok []
  | levels + 1, .binding info _ _ init =>
    if p.mentions info r then p.trace r (levels + 1) init else .ok []
  | levels + 1, .block info stmts =>
    if p.mentions info r then p.traceAll r (levels + 1) stmts else .ok []
  | levels + 1, .assign info _ value =>
    if p.mentions info r then p.trace r (levels + 1) value else .ok []
  | levels + 1, .call info callee args blockArgs _ =>
    if p.mentions info r then do
      let first ← p.trace r (levels + 1) callee
      let second ← p.traceAll r (levels + 1) args
      return first ++ second ++ (← p.traceAll r (levels + 1) blockArgs)
    else .ok []
  | _ + 1, .literal _ _ => .ok []
  | levels + 1, .cond info condition consequence alternative =>
    if p.mentions info r then do
      let first ← p.trace r (levels + 1) condition
      let second ← p.trace r (levels + 1) consequence
      return first ++ second ++ (← p.trace r (levels + 1) alternative)
    else .ok []

/-- The traces of all nodes in a list, in order. -/
def traceAll (p : Provenance) (r : Region) (levels : Nat) : List Tree → Except Fault Trace
  | [] => .ok []
  | t :: ts => do
    let first ← p.trace r levels t
    return first ++ (← p.traceAll r levels ts)

/-- The traces of all clauses of handlers, in order. -/
def traceHandlers (p : Provenance) (r : Region) (levels : Nat) : List Handler → Except Fault Trace
  | [] => .ok []
  | ⟨_, _, _, clauses⟩ :: hs => do
    let first ← p.traceClauses r levels clauses
    return first ++ (← p.traceHandlers r levels hs)

/-- The traces of all bodies of clauses, in order. -/
def traceClauses (p : Provenance) (r : Region) (levels : Nat) : List Clause → Except Fault Trace
  | [] => .ok []
  | ⟨_, _, _, body⟩ :: cs => do
    let first ← p.trace r levels body
    return first ++ (← p.traceClauses r levels cs)
end

/-- The trace of how a region reaches a root (`Explain`). It is empty if no rule recognises the
provenance. -/
def explain (p : Provenance) (r : Region) (root : Tree) : Except Fault Trace :=
  p.trace r p.maxDepth.toNat root

/-- The traces of all regions of a set, one after the other. -/
def explainEach (p : Provenance) (root : Tree) (rs : RegionSet) : Except Fault Trace := do
  return (← rs.elems.mapM fun r => p.explain r root).flatten

end Provenance

end RegionCapture
