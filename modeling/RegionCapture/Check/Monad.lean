import RegionCapture.Check.Scope
import RegionCapture.Options
import RegionCapture.Provenance
import RegionCapture.Ty.Subst
import RegionCapture.Ty.Unify

/-!
# The state of a check

A check carries the equations between region slots with their table, the annotations made so far and
the number of annotated nodes. It stops at the first failure; the table it leaves is kept also then.
-/

namespace RegionCapture

/-- What a call needs to know about the function it calls. -/
structure CallSignature where
  blocks : List SymbolId
  result : Ty

/-- What a check reads. -/
structure CheckEnv where
  symbols : SymbolTable
  options : Options
  signatures : Std.TreeMap SymbolId CallSignature

/-- What a check changes. -/
structure CheckState where
  store : EquationStore := {}
  annotations : Annotations := {}
  /-- the nodes annotated so far -/
  nodes : Nat := 0

/-- Why a check stops. -/
inductive Failure where
  /-- the program is rejected -/
  | rejected (d : Diagnostic)
  /-- the input breaks a promise -/
  | fault (f : Fault)

/-- A step of a check. -/
abbrev Check := ExceptT Failure (StateM CheckState)

namespace Check

def reject {α : Type} (d : Diagnostic) : Check α := throw (.rejected d)

def orFault {α : Type} : Except Fault α → Check α
  | .ok a => pure a
  | .error f => throw (.fault f)

def table : Check Table := return (← get).store.table

def annotate (f : Annotations → Annotations) : Check Unit :=
  modify fun s => { s with annotations := f s.annotations }

def equate (f : EquationStore → EquationStore) : Check Unit :=
  modify fun s => { s with store := f s.store }

/-- What the annotations made so far say about provenance. -/
def provenance (env : CheckEnv) : Check Provenance := do
  let s ← get
  return { symbols := env.symbols, annotations := s.annotations, table := s.store.table,
           maxDepth := env.options.explain.maxDepth }

/-- The traces of how regions reach a root, if explanations are wanted. -/
def explainEach (env : CheckEnv) (rs : RegionSet) (root : Tree) : Check Trace := do
  if env.options.explains then orFault ((← provenance env).explainEach root rs) else return []

/-- The diagnostic for equations that cannot be solved. -/
def unsolvable (p : Provenance) (token : Token) : SolveError → Failure
  | .fault f => .fault f
  | .mismatch l r =>
    .rejected { Diagnostic.make .mismatch token .mismatch [p.describe l, p.describe r] with
      cause := some (.solving (.mismatch l r)) }
  | e =>
    .rejected { Diagnostic.make .internal token .internal [e.message] with
      cause := some (.solving e) }

/-- Solves the pending equations and reports a failure at the given place (`solve` of the
checker). -/
def solveAt (env : CheckEnv) (token : Token) : Check Unit := do
  let (outcome, store) := (← get).store.solve
  modify fun s => { s with store }
  match outcome with
  | .ok () => return ()
  | .error e => throw (unsolvable (← provenance env) token e)

/-- Checks that every region of a node is bound around it. -/
def verifyScope (env : CheckEnv) (scope : Scope) (token : Token)
    (reg : RegionSet) : Check Unit := do
  unless reg.subsetOf scope.lexical do
    let unbound := (← provenance env).describe (reg \ scope.lexical)
    reject (.make .internal token .internal [unbound ++ " is not bound by any enclosing binder"])

/-- Verifies the regions of a node if that is wanted, and records them. -/
def record (env : CheckEnv) (scope : Scope) (info : Anchor) (reg : RegionSet) :
    Check RegionSet := do
  if env.options.verifyScopes then verifyScope env scope info.token reg
  modify fun s => { s with
    annotations := s.annotations.annotateNode info.id reg, nodes := s.nodes + 1 }
  return reg

/-- Gives every binder of a list its own region, and the regions as a set (`bindParams`). -/
def bindOwn (binders : List SymbolId) : Check RegionSet := do
  annotate fun a => binders.foldl (fun a b => a.annotateSymbol b (.singleton (.ofSymbol b))) a
  return .ofList (binders.map Region.ofSymbol)

/-- The regions of those binders that are capabilities. -/
def capabilities (env : CheckEnv) (binders : List SymbolId) : RegionSet :=
  .ofList ((binders.filter fun b => env.symbols.kind b = .capability).map Region.ofSymbol)

/-- Rejects a definition whose result type mentions a region that must not leave it
(`checkDefinitionEscape`). -/
def definitionEscape (env : CheckEnv) (token : Token) (symbol : SymbolId) (result : Ty)
    (forbidden : RegionSet) (body : Tree) : Check Unit := do
  solveAt env token
  let leaked := (← orFault (result.freeRegions (← table))) ∩ forbidden
  unless leaked.isEmpty do
    let trace ← explainEach env leaked body
    reject { Diagnostic.make .definitionEscape token .definitionEscape [env.symbols.name symbol]
      with trace }

/-- The place of the handler of a capability. -/
def handlerToken (token : Token) (handlers : List Handler) (r : Region) : Token :=
  ((handlers.find? fun h => Region.ofSymbol h.capability = r).map Handler.token).getD token

/-- The traces of how handled capabilities reach the result, each below an item at its handler. -/
def handlerTrace (env : CheckEnv) (token : Token) (handlers : List Handler) (leaked : RegionSet)
    (body : Tree) :
    Check Trace := do
  if env.options.explains then
    let p ← provenance env
    let items ← leaked.elems.mapM fun r => do
      let below ← orFault (p.explain r body)
      return if below.isEmpty then [] else
        [{ token := handlerToken token handlers r,
           message := "'" ++ p.regionName r ++ "' reaches the result of this handler:",
           children := below }]
    return items.flatten
  else return []

/-- Rejects a handled expression whose type mentions one of the handled capabilities
(`checkHandlerEscape`). -/
def handlerEscape (env : CheckEnv) (token : Token) (handlers : List Handler) (type : Ty)
    (bound : RegionSet) (body : Tree) : Check Unit := do
  solveAt env token
  let leaked := (← orFault (type.freeRegions (← table))) ∩ bound
  unless leaked.isEmpty do
    let p ← provenance env
    let names := leaked.elems.map fun r => "'" ++ p.regionName r ++ "'"
    let trace ← handlerTrace env token handlers leaked body
    reject { Diagnostic.make .handlerEscape token .handlerEscape [String.intercalate ", " names]
      with trace }

/-- Relates the regions of a function value to the slot of its type (`matchExpected`): a known slot
bounds them from above, and an open one is resolved to them. -/
def matchSlot (env : CheckEnv) (token : Token) (slot : Option Term) (reg : RegionSet)
    (body : Tree) :
    Check Unit := do
  match slot with
  | none => return ()
  | some term =>
    match ← orFault ((← table).apply term) with
    | .set expected =>
      unless reg.subsetOf expected do
        let extra := reg \ expected
        let shown := (← provenance env).describe extra
        let trace ← explainEach env extra body
        reject { Diagnostic.make .notAllowed token .notAllowed [shown] with trace }
    | .var v =>
      equate fun s => s.add (.var v) (.set reg)
      solveAt env token

/-- The signature of a function that is called by its name (`callee`). -/
def calleeSignature (env : CheckEnv) : Tree → Option CallSignature
  | .ref _ symbol => env.signatures[symbol]?
  | _ => none

/-- Unifies the type of a call with the callee's result type, in which the regions of the block
arguments stand for those of the block parameters (the second half of `checkCall`). -/
def instantiate (env : CheckEnv) (token : Token) (sig : CallSignature)
    (blockRegions : List RegionSet) (type : Ty) :
    Check Unit := do
  unless type.isAbsent || sig.result.isAbsent do
    let subst := (sig.blocks.zip blockRegions).foldl
      (fun (s : RegionSubst) (b : SymbolId × RegionSet) => s.bind (.ofSymbol b.1) b.2) []
    let result ← orFault (sig.result.subst (← table) subst)
    equate fun s => s.unify type result
    solveAt env token

end Check

end RegionCapture
