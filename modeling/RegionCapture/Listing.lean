import RegionCapture.Annotations
import RegionCapture.Trace

/-!
# Listings

A tree as source-like text. With annotations, the regions that a binder captures follow it as a
comment. Statements of a block and clauses of a handler stand on lines of their own, four spaces
further in. The text is written from left to right with a pen that keeps the indentation of the next
line.
-/

namespace RegionCapture

/-- How many levels the next line is indented, and the text so far. -/
structure Pen where
  indent : Nat := 0
  written : String := ""

/-- Writing moves a pen along. It stops at a type of which a part is absent. -/
abbrev Printer := StateT Pen (Except Fault)

namespace Printer

def write (s : String) : Printer Unit := modify fun pen => { pen with written := pen.written ++ s }

/-- Starts a line at the current indentation. -/
def startLine : Printer Unit := do
  write "\n"
  write (replicateText (← get).indent "    ")

/-- Writes with new lines indented by one level more. -/
def nested (m : Printer Unit) : Printer Unit := do
  modify fun pen => { pen with indent := pen.indent + 1 }
  m
  modify fun pen => { pen with indent := pen.indent - 1 }

def when (wanted : Bool) (m : Printer Unit) : Printer Unit := if wanted then m else pure ()

/-- Parts one after the other, each after `lead`. -/
def each (lead : Printer Unit) : List (Printer Unit) → Printer Unit
  | [] => pure ()
  | m :: ms => do
    lead
    m
    each lead ms

/-- Parts one after the other, with commas between them. -/
def separated : List (Printer Unit) → Printer Unit
  | [] => pure ()
  | m :: ms => do
    m
    each (write ", ") ms

end Printer

/-- What a listing reads. -/
structure Listing where
  symbols : SymbolTable
  annotations : Option Annotations := none

namespace Listing

open Printer

/-- The regions of a node by the names of their owners, as a comment. -/
def regionNote (l : Listing) (info : Anchor) : String :=
  match l.annotations.bind fun a => a.node? info.id with
  | some s => " /* " ++ s.format (fun r => l.symbols.name r.owner) ++ " */"
  | none => ""

/-- A type after a colon, if there is one. -/
def typeNote (type : Ty) : Printer Unit :=
  when (!type.isAbsent) do write (": " ++ (← type.text))

def param (l : Listing) (p : Param) : Printer Unit := do
  write (l.symbols.name p.symbol)
  typeNote p.type

/-- Value parameters between round brackets. -/
def params (l : Listing) (ps : List Param) : Printer Unit := do
  write "("
  separated (ps.map l.param)
  write ")"

/-- Block parameters between braces, if there are any. -/
def blocks (l : Listing) (bs : List SymbolId) : String :=
  if bs.isEmpty then "" else " \x7b" ++ String.intercalate ", " (bs.map l.symbols.name) ++ "\x7d"

/-- A handler clause around its body. -/
def clause (l : Listing) (operation : SymbolId) (ps : List Param) (resume : SymbolId)
    (body : Printer Unit) :
    Printer Unit := do
  write ("def " ++ l.symbols.name operation)
  l.params ps
  write (" resume " ++ l.symbols.name resume ++ " = ")
  body

/-- A handler around its clauses; if there are any, the closing brace stands on its own line. -/
def handler (l : Listing) (capability : SymbolId) (effect : String)
    (clauses : List (Printer Unit)) :
    Printer Unit := do
  write (l.symbols.name capability ++ ": " ++ effect ++ " \x7b")
  nested (each startLine clauses)
  when (!clauses.isEmpty) startLine
  write "\x7d"

mutual
/-- Writes a node. -/
def print (l : Listing) : Tree → Printer Unit
  | .hole => write "<???>"
  | .module _ name defs _ => do
    write ("module " ++ name)
    each (write "\n\n") (l.printEach defs)
    write "\n"
  | .function info symbol ps bs result body => do
    write ("def " ++ l.symbols.name symbol)
    l.params ps
    write (l.blocks bs)
    typeNote result
    write (l.regionNote info ++ " = ")
    l.print body
  | .lambda info _ ps bs _ _ body => do
    write "fun"
    l.params ps
    write (l.blocks bs ++ l.regionNote info ++ " => ")
    l.print body
  | .blockArg info ps bs body => do
    write "\x7b "
    when (!ps.isEmpty || !bs.isEmpty) do
      l.params ps
      write (l.blocks bs ++ " => ")
    l.print body
    write (" \x7d" ++ l.regionNote info)
  | .handle info body handlers _ => do
    write "try "
    l.print body
    write (l.regionNote info)
    each (write " with ") (l.printHandlers handlers)
  | .cell _ symbol init => do
    write ("var " ++ l.symbols.name symbol ++ " = ")
    l.print init
  | .binding _ symbol _ init => do
    write ("val " ++ l.symbols.name symbol ++ " = ")
    l.print init
  | .block _ stmts => do
    write "\x7b"
    nested (each startLine (l.printEach stmts))
    startLine
    write "\x7d"
  | .ref _ symbol => write (l.symbols.name symbol)
  | .assign _ symbol value => do
    write (l.symbols.name symbol ++ " = ")
    l.print value
  | .call _ callee args blockArgs _ => do
    l.print callee
    write "("
    separated (l.printEach args)
    write ")"
    each (write " ") (l.printEach blockArgs)
  | .ret _ value _ => do
    write "return "
    l.print value
  | .literal _ value => write value
  | .cond _ condition consequence alternative => do
    write "if ("
    l.print condition
    write ") "
    l.print consequence
    when (!alternative.isHole) do
      write " else "
      l.print alternative

def printEach (l : Listing) : List Tree → List (Printer Unit)
  | [] => []
  | t :: ts => l.print t :: l.printEach ts

def printHandlers (l : Listing) : List Handler → List (Printer Unit)
  | [] => []
  | ⟨_, capability, effect, clauses⟩ :: hs =>
    l.handler capability effect (l.printClauses clauses) :: l.printHandlers hs

def printClauses (l : Listing) : List Clause → List (Printer Unit)
  | [] => []
  | ⟨operation, ps, resume, body⟩ :: cs =>
    l.clause operation ps resume (l.print body) :: l.printClauses cs
end

/-- The text of a tree (`Print`). -/
def text (l : Listing) (t : Tree) : Except Fault String := return (← (l.print t).run {}).2.written

end Listing

end RegionCapture
