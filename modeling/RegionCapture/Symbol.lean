import RegionCapture.Token

/-!
# Symbols

Every named entity of a program is declared once in a symbol table and referred to by its number
from then on. Numbers are dense and start at one; zero refers to nothing.
-/

namespace RegionCapture

/-- The number of a declared symbol; zero means "no symbol". -/
abbrev SymbolId := Nat

/-- What a symbol stands for. -/
inductive SymbolKind where
  /-- a named definition -/
  | function
  /-- an anonymous function value -/
  | lambda
  /-- a second-class block parameter -/
  | blockParam
  /-- an ordinary value parameter -/
  | valueParam
  /-- an effect capability, bound by a handler or a parameter -/
  | capability
  /-- a mutable binding -/
  | cell
  /-- an immutable binding -/
  | value
  /-- a constructor of a data type -/
  | dataConstructor
  /-- the resumption bound by a handler clause -/
  | resumption
  /-- an effect operation implemented by a handler clause -/
  | operation
  /-- a kind outside the known ones -/
  | other (code : Int)
deriving DecidableEq, Inhabited

namespace SymbolKind

/-- The kind with the given numeric code. -/
def ofCode (code : Int) : SymbolKind :=
  match code with
  | 0 => function
  | 1 => lambda
  | 2 => blockParam
  | 3 => valueParam
  | 4 => capability
  | 5 => cell
  | 6 => value
  | 7 => dataConstructor
  | 8 => resumption
  | 9 => operation
  | n => other n

/-- The numeric code of a kind. -/
def code : SymbolKind → Int
  | function => 0
  | lambda => 1
  | blockParam => 2
  | valueParam => 3
  | capability => 4
  | cell => 5
  | value => 6
  | dataConstructor => 7
  | resumption => 8
  | operation => 9
  | other n => n

/-- The kind as it is worded in messages. -/
def text : SymbolKind → String
  | function => "function"
  | lambda => "lambda"
  | blockParam => "block parameter"
  | valueParam => "value parameter"
  | capability => "capability"
  | cell => "variable"
  | value => "value"
  | dataConstructor => "constructor"
  | resumption => "resumption"
  | operation => "operation"
  | other n => "kind(" ++ toString n ++ ")"

/-- Decoding a code and encoding the kind gives the code back. -/
@[simp] theorem code_ofCode (n : Int) : (ofCode n).code = n := by
  unfold ofCode
  split <;> rfl

end SymbolKind

/-- A named program entity. -/
structure Symbol where
  name : String := ""
  kind : SymbolKind := .function
  /-- visible to other compilation units -/
  exported : Bool := false
  /-- where it is declared -/
  token : Token := {}
deriving DecidableEq, Inhabited

/-- The declared symbols, the one with number `n + 1` at place `n`. -/
structure SymbolTable where
  entries : List Symbol := []
deriving DecidableEq, Inhabited

namespace SymbolTable

def declare (t : SymbolTable) (s : Symbol) : SymbolId × SymbolTable :=
  (t.entries.length + 1, ⟨t.entries ++ [s]⟩)

/-- The symbol with the given number. -/
def lookup (t : SymbolTable) : SymbolId → Option Symbol
  | 0 => none
  | n + 1 => t.entries[n]?

/-- The name of a symbol, or a placeholder for a number that is not declared. -/
def name (t : SymbolTable) (id : SymbolId) : String :=
  match t.lookup id with
  | some s => s.name
  | none => "<symbol " ++ toString id ++ ">"

/-- The kind of a symbol; a number that is not declared counts as a plain value. -/
def kind (t : SymbolTable) (id : SymbolId) : SymbolKind :=
  match t.lookup id with
  | some s => s.kind
  | none => .value

def size (t : SymbolTable) : Nat := t.entries.length

/-- The exported symbols with their numbers, in declaration order. -/
def exported (t : SymbolTable) : List (SymbolId × Symbol) :=
  ((t.entries.zipIdx 1).filter fun e => e.1.exported).map fun e => (e.2, e.1)

/-- A declared symbol is found under its number. -/
@[simp] theorem lookup_declare (t : SymbolTable) (s : Symbol) :
    (t.declare s).2.lookup (t.declare s).1 = some s := by
  simp [declare, lookup]

end SymbolTable

end RegionCapture
