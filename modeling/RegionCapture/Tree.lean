import RegionCapture.Ty

/-!
# Program trees

The program under analysis, after name resolution and type checking: every name is a symbol number
and every type that matters is attached. Each node has a number of its own, under which annotations
are kept. A place where a node is missing holds a `hole`.
-/

namespace RegionCapture

/-- The number of a node; zero means "no node". -/
abbrev NodeId := Nat

/-- The identity and the place of a node. -/
structure Anchor where
  id : NodeId
  token : Token
deriving DecidableEq, Inhabited

/-- A value parameter. -/
structure Param where
  symbol : SymbolId
  type : Ty
deriving Inhabited

/-- A function of another unit, known by its signature only. -/
structure Imported where
  symbol : SymbolId
  /-- its block parameters -/
  blocks : List SymbolId
  result : Ty
  /-- the regions it captures, as recorded when its own unit was checked -/
  region : RegionSet
deriving Inhabited

mutual
/-- A node of a program tree. Block parameters are given by their symbols. -/
inductive Tree where
  /-- a missing node -/
  | hole
  /-- a compilation unit -/
  | module (info : Anchor) (name : String) (defs : List Tree) (imports : List Imported)
  /-- a named definition -/
  | function (info : Anchor) (symbol : SymbolId) (params : List Param) (blocks : List SymbolId)
      (result : Ty) (body : Tree)
  /-- a function value; `slot` is the region slot of its type -/
  | lambda (info : Anchor) (symbol : SymbolId) (params : List Param) (blocks : List SymbolId)
      (result : Ty) (slot : Option Term) (body : Tree)
  /-- an anonymous block passed to a block parameter -/
  | blockArg (info : Anchor) (params : List Param) (blocks : List SymbolId) (body : Tree)
  /-- handlers installed around a body; `type` is the type of the value produced -/
  | handle (info : Anchor) (body : Tree) (handlers : List Handler) (type : Ty)
  /-- a mutable binding -/
  | cell (info : Anchor) (symbol : SymbolId) (init : Tree)
  /-- an immutable binding -/
  | binding (info : Anchor) (symbol : SymbolId) (type : Ty) (init : Tree)
  /-- statements in sequence -/
  | block (info : Anchor) (stmts : List Tree)
  /-- a symbol that is read -/
  | ref (info : Anchor) (symbol : SymbolId)
  /-- a mutable binding that is written -/
  | assign (info : Anchor) (symbol : SymbolId) (value : Tree)
  /-- a call with value arguments and block arguments -/
  | call (info : Anchor) (callee : Tree) (args blockArgs : List Tree) (type : Ty)
  /-- leaving the enclosing definition with a value -/
  | ret (info : Anchor) (value : Tree) (type : Ty)
  /-- a constant -/
  | literal (info : Anchor) (value : String)
  /-- a choice; the alternative may be missing -/
  | cond (info : Anchor) (condition consequence alternative : Tree)

/-- The handler of one capability. -/
structure Handler where
  token : Token
  capability : SymbolId
  effect : String
  clauses : List Clause

/-- The implementation of one operation of a handled effect. -/
structure Clause where
  operation : SymbolId
  params : List Param
  resume : SymbolId
  body : Tree
end

/-- A compilation unit. -/
structure Module where
  info : Anchor
  name : String
  defs : List Tree
  imports : List Imported

/-- The unit as the root of its tree. -/
def Module.tree (m : Module) : Tree := .module m.info m.name m.defs m.imports

namespace Tree

instance : Inhabited Tree := ⟨hole⟩

/-- The kinds of nodes. -/
inductive Kind where
  | module | function | lambda | blockArg | handle | cell | binding | block | ref | assign | call
  | ret | literal | cond
deriving DecidableEq, Inhabited

/-- The kind, the identity and the place of a node. -/
def head? : Tree → Option (Kind × Anchor)
  | hole => none
  | module i .. => some (.module, i)
  | function i .. => some (.function, i)
  | lambda i .. => some (.lambda, i)
  | blockArg i .. => some (.blockArg, i)
  | handle i .. => some (.handle, i)
  | cell i .. => some (.cell, i)
  | binding i .. => some (.binding, i)
  | block i .. => some (.block, i)
  | ref i .. => some (.ref, i)
  | assign i .. => some (.assign, i)
  | call i .. => some (.call, i)
  | ret i .. => some (.ret, i)
  | literal i .. => some (.literal, i)
  | cond i .. => some (.cond, i)

def isHole (t : Tree) : Bool := t.head?.isNone

def id (t : Tree) : NodeId := (t.head?.map fun h => h.2.id).getD 0

def token (t : Tree) : Token := (t.head?.map fun h => h.2.token).getD {}

end Tree

end RegionCapture
