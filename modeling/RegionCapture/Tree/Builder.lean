import RegionCapture.Tree

/-!
# Building trees

A builder numbers nodes in the order they are made, from one, and gives each the current place of
one source file. Since a node is made after its children, its number is the largest below it.
-/

namespace RegionCapture

/-- The state of a builder: the current place and the number of nodes made so far. -/
structure Builder where
  file : String
  line : Int := 1
  column : Int := 1
  count : Nat := 0

abbrev Build := StateM Builder

namespace Build

/-- Sets the place of what is made from now on. -/
def moveTo (line column : Int) : Build Unit := modify fun b => { b with line, column }

def token (lexeme : String) : Build Token := do
  let b ← get
  return { lexeme, file := b.file, line := b.line, column := b.column }

def anchor (lexeme : String) : Build Anchor := do
  modify fun b => { b with count := b.count + 1 }
  return { id := (← get).count, token := ← token lexeme }

/-! ## Nodes

Each step below makes the node it is named for, at the current place and with the next number. -/

def module (name : String) (defs : List Tree) (imports : List Imported) : Build Module := do
  return { info := ← anchor "module", name, defs, imports }

def function (symbol : SymbolId) (params : List Param) (blocks : List SymbolId) (result : Ty)
    (body : Tree) :
    Build Tree := do
  return .function (← anchor "def") symbol params blocks result body

def lambda (symbol : SymbolId) (params : List Param) (blocks : List SymbolId) (result : Ty)
    (slot : Option Term) (body : Tree) : Build Tree := do
  return .lambda (← anchor "fun") symbol params blocks result slot body

def blockArg (params : List Param) (blocks : List SymbolId) (body : Tree) : Build Tree := do
  return .blockArg (← anchor "\x7b") params blocks body

def handle (body : Tree) (handlers : List Handler) (type : Ty) : Build Tree := do
  return .handle (← anchor "try") body handlers type

/-- A handler has a place but no number. -/
def handler (capability : SymbolId) (effect : String) (clauses : List Clause) : Build Handler := do
  return { token := ← token effect, capability, effect, clauses }

def cell (symbol : SymbolId) (init : Tree) : Build Tree := do
  return .cell (← anchor "var") symbol init

def binding (symbol : SymbolId) (type : Ty) (init : Tree) : Build Tree := do
  return .binding (← anchor "val") symbol type init

def block (stmts : List Tree) : Build Tree := do
  return .block (← anchor "\x7b") stmts

def ref (symbol : SymbolId) : Build Tree := do
  return .ref (← anchor "") symbol

def assign (symbol : SymbolId) (value : Tree) : Build Tree := do
  return .assign (← anchor "=") symbol value

def call (callee : Tree) (args blockArgs : List Tree) (type : Ty) : Build Tree := do
  return .call (← anchor "(") callee args blockArgs type

def ret (value : Tree) (type : Ty) : Build Tree := do
  return .ret (← anchor "return") value type

def literal (value : String) : Build Tree := do
  return .literal (← anchor value) value

def cond (condition consequence alternative : Tree) : Build Tree := do
  return .cond (← anchor "if") condition consequence alternative

end Build

end RegionCapture
