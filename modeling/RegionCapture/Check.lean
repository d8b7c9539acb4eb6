import RegionCapture.Check.Monad
import RegionCapture.Listing

/-!
# Checking a unit

One traversal infers, for every node, the regions that evaluating it captures, and rejects a program
in which a capability, or a value bound to a definition's own region, becomes reachable outside the
scope that introduced it. Nodes are annotated on the way up and symbols when their binder is
entered. A function is annotated twice: before its body with the static region around it, which
recursive calls read, and after it with the regions it turned out to capture.

A log may ask for a listing of every accepted unit (`checkLogged`). What the check finds does not
depend on it, but a type without a text, which the check itself has no use for, then ends it in a
fault.
-/

namespace RegionCapture

namespace Check

def unionAll (regs : List RegionSet) : RegionSet := regs.foldl (· ∪ ·) ∅

mutual
/-- Infers the regions of a node, checks them, and records them (`check` and `checkNode`, with the
rule of each kind of node in its branch). -/
def node (env : CheckEnv) (scope : Scope) : Tree → Check RegionSet
  | .hole => return ∅
  | .module info _ defs _ => do
    record env scope info (unionAll (← nodes env scope defs))
  | .function info symbol _ blocks result body => do
    annotate fun a => a.annotateSymbol symbol scope.static
    let self := Region.ofSymbol symbol
    let bound ← bindOwn blocks
    let inner ← node env (scope.enterDefinition self bound) body
    annotate fun a => a.annotateScope info.id (bound.add self)
    let reg := (inner \ bound).remove self
    definitionEscape env info.token symbol result ((capabilities env blocks).add self) body
    annotate fun a => a.annotateSymbol symbol reg
    record env scope info reg
  | .lambda info symbol _ blocks result slot body => do
    annotate fun a => a.annotateSymbol symbol scope.static
    let self := Region.ofSymbol symbol
    let bound ← bindOwn blocks
    let inner ← node env (scope.enterDefinition self bound) body
    annotate fun a => a.annotateScope info.id (bound.add self)
    let reg := (inner \ bound).remove self
    matchSlot env info.token slot reg body
    definitionEscape env info.token symbol result ((capabilities env blocks).add self) body
    annotate fun a => a.annotateSymbol symbol reg
    record env scope info reg
  | .blockArg info _ blocks body => do
    let bound ← bindOwn blocks
    let inner ← node env (scope.enterBlock bound) body
    annotate fun a => a.annotateScope info.id bound
    record env scope info (inner \ bound)
  | .handle info body handlers type => do
    let bound ← bindOwn (handlers.map Handler.capability)
    let inner := scope.enterHandler bound
    let first ← node env inner body
    let rest ← handlerNodes env inner handlers
    annotate fun a => a.annotateScope info.id bound
    handlerEscape env info.token handlers type bound body
    record env scope info ((first ∪ rest) \ bound)
  | .cell info symbol init => do
    annotate fun a => a.annotateSymbol symbol scope.dynamic
    record env scope info (← node env scope init)
  | .binding info symbol type init => do
    let reg ← node env scope init
    solveAt env info.token
    let own ← orFault (type.freeRegions (← table))
    annotate fun a => a.annotateSymbol symbol own
    record env scope info reg
  | .block info stmts => do
    record env scope info (unionAll (← nodes env scope stmts))
  | .ref info symbol => do
    record env scope info ((← get).annotations.symbolRegion symbol)
  | .assign info symbol value => do
    let reg ← node env scope value
    record env scope info ((← get).annotations.symbolRegion symbol ∪ reg)
  | .call info callee args blockArgs type => do
    let first ← node env scope callee
    let second ← nodes env scope args
    let blockRegions ← nodes env scope blockArgs
    match calleeSignature env callee with
    | some sig => instantiate env info.token sig blockRegions type
    | none => pure ()
    record env scope info (unionAll (first :: (second ++ blockRegions)))
  | .ret info value _ => do
    record env scope info (← node env scope value)
  | .literal info _ => record env scope info ∅
  | .cond info condition consequence alternative => do
    let first ← node env scope condition
    let second ← node env scope consequence
    let third ← node env scope alternative
    record env scope info (unionAll [first, second, third])

/-- The regions of all nodes in a list, in order (`checkChildren`); a missing node captures
nothing. -/
def nodes (env : CheckEnv) (scope : Scope) : List Tree → Check (List RegionSet)
  | [] => return []
  | t :: ts => do
    let reg ← node env scope t
    return reg :: (← nodes env scope ts)

/-- The regions of all clauses of handlers (the loop of `checkTry`). -/
def handlerNodes (env : CheckEnv) (inner : Scope) : List Handler → Check RegionSet
  | [] => return ∅
  | ⟨_, _, _, clauses⟩ :: hs => do
    let reg ← clauseNodes env inner clauses
    return reg ∪ (← handlerNodes env inner hs)

/-- The regions of all bodies of clauses. Resuming continues inside the handled body, so a
resumption captures its extent. -/
def clauseNodes (env : CheckEnv) (inner : Scope) : List Clause → Check RegionSet
  | [] => return ∅
  | ⟨_, _, resume, body⟩ :: cs => do
    annotate fun a => a.annotateSymbol resume inner.dynamic
    let reg ← node env inner body
    return reg ∪ (← clauseNodes env inner cs)
end

end Check

namespace Module

/-- The signature that a node defines, if it is a function. -/
def definedSignature : Tree → Option (SymbolId × CallSignature)
  | .function _ symbol _ blocks result _ => some (symbol, ⟨blocks, result⟩)
  | _ => none

/-- The signatures of all imported functions and then of all functions of the unit, in source
order. -/
def signatureList (m : Module) : List (SymbolId × CallSignature) :=
  m.imports.map (fun i => (i.symbol, ⟨i.blocks, i.result⟩)) ++
    m.tree.nodes.filterMap definedSignature

/-- The signature of each function that a call may name (`collectSignatures`); a later one of the
same symbol wins. -/
def signatures (m : Module) : Std.TreeMap SymbolId CallSignature :=
  m.signatureList.foldl (fun sigs s => sigs.insert s.1 s.2) {}

/-- The annotations a check starts with: imported functions capture what is recorded for them, and
top-level functions seem to capture nothing until they are reached. -/
def startAnnotations (m : Module) : Annotations :=
  let imported := m.imports.foldl (fun a i => a.annotateSymbol i.symbol i.region) ({} : Annotations)
  m.defs.foldl (fun a t => match t with
    | .function _ symbol .. => a.annotateSymbol symbol ∅
    | _ => a) imported

end Module

/-- The work of a check. -/
structure CheckStats where
  /-- annotated nodes -/
  nodes : Nat
  solverInvocations : Nat
  solverPasses : Nat
  /-- region variables resolved by the check -/
  resolvedVars : Nat
  /-- region variables open after it -/
  openVars : Nat
deriving DecidableEq

/-- What a check that accepts a unit leaves behind. -/
structure CheckReport where
  annotations : Annotations
  stats : CheckStats

/-- Checks a whole unit: its tree, and then the equations that are left. -/
def Check.unit (env : CheckEnv) (m : Module) : Check Unit := do
  discard (Check.node env {} m.tree)
  Check.solveAt env m.info.token

def Module.env (m : Module) (symbols : SymbolTable) (options : Options) : CheckEnv :=
  { symbols, options, signatures := m.signatures }

def Module.start (m : Module) (table : Table) : CheckState :=
  { store := { table }, annotations := m.startAnnotations }

/-- The report on an accepted unit. -/
def CheckState.report (s : CheckState) : CheckReport where
  annotations := s.annotations
  stats :=
    { nodes := s.nodes
      solverInvocations := s.store.stats.invocations
      solverPasses := s.store.stats.passes
      resolvedVars := s.store.stats.resolved
      openVars := s.store.table.unresolved }

/-- Checks a unit over a table of region variables (`Check`, below the log). The table afterwards is
given also if the check fails. -/
def check (symbols : SymbolTable) (options : Options) (table : Table) (m : Module) :
    Except Failure CheckReport × Table :=
  let (outcome, final) := (Check.unit (m.env symbols options) m).run (m.start table)
  (outcome.map fun _ => final.report, final.store.table)

/-- What a log shows of an accepted unit: its listing, with the regions found. -/
def CheckReport.listing (report : CheckReport) (symbols : SymbolTable) (m : Module) :
    Except Fault String :=
  Listing.text { symbols, annotations := some report.annotations } m.tree

/-- Checks a unit while a log is written (`Check` as a whole). If the log takes debug messages, the
listing of an accepted unit is made before the report is given, so where it cannot be made there is
no report. -/
def checkLogged (debug : Bool) (symbols : SymbolTable) (options : Options) (table : Table)
    (m : Module) :
    Except Failure CheckReport × Table :=
  let (outcome, final) := check symbols options table m
  (do
    let report ← outcome
    if debug then discard ((report.listing symbols m).mapError .fault)
    return report, final)

end RegionCapture
