import RegionCapture.Region.Table

/-!
# Equations between region terms

Equations are collected in a store and solved together. Solving scans the pending equations again
and again under the table as it is known so far. In a scan two known sets have to be equal, a
variable against a known set is resolved, and an equation between two open variables stays pending.
Solving stops after a scan that resolves nothing; since every other scan resolves a variable, the
open variables bound the number of scans.
-/

namespace RegionCapture

/-- Two terms that have to stand for the same set. -/
structure Equation where
  left : Term
  right : Term
deriving DecidableEq

namespace Equation

def text (e : Equation) : String := e.left.text ++ " = " ++ e.right.text

end Equation

/-- The work done by a store so far. -/
structure SolveStats where
  /-- calls of `solve` -/
  invocations : Nat := 0
  /-- scans that resolved a variable, over all calls -/
  passes : Nat := 0
  /-- scans that resolved a variable, in the last call -/
  lastPasses : Nat := 0
  /-- variables resolved by solving -/
  resolved : Nat := 0
deriving DecidableEq, Inhabited

/-- The pending equations over a table. -/
structure EquationStore where
  table : Table := {}
  pending : List Equation := []
  stats : SolveStats := {}
deriving DecidableEq, Inhabited

/-- What one scan of the pending equations leaves behind. -/
structure Scan where
  table : Table
  /-- the equations that stay pending; after an error, those not scanned yet follow -/
  kept : List Equation
  /-- the variables resolved -/
  resolved : Nat
  /-- why the scan stopped early -/
  error : Option SolveError
deriving DecidableEq

/-- Scans equations from left to right, each under the table that the ones before it leave. -/
def Table.scan (t : Table) : List Equation → Scan
  | [] => ⟨t, [], 0, none⟩
  | e :: rest =>
    match t.apply e.left, t.apply e.right with
    | .error f, _ => ⟨t, rest, 0, some (.fault f)⟩
    | .ok _, .error f => ⟨t, rest, 0, some (.fault f)⟩
    | .ok (.set l), .ok (.set r) =>
      if l = r then t.scan rest else ⟨t, rest, 0, some (.mismatch l r)⟩
    | .ok (.set s), .ok (.var v) | .ok (.var v), .ok (.set s) =>
      match t.resolve v s with
      | .ok u => let rest := u.scan rest; { rest with resolved := rest.resolved + 1 }
      | .error err => ⟨t, rest, 0, some err⟩
    | .ok (.var v), .ok (.var w) =>
      if v = w then t.scan rest else let rest := t.scan rest; { rest with kept := e :: rest.kept }

namespace EquationStore

/-- Records that two terms have to be equal (`AddConstraint`). -/
def add (s : EquationStore) (left right : Term) : EquationStore :=
  { s with pending := s.pending ++ [⟨left, right⟩] }

/-- Scans until a scan resolves nothing, at most `fuel` times. -/
def scans : (fuel : Nat) → EquationStore → Except SolveError Unit × EquationStore
  | 0, s => (.ok (), s)
  | fuel + 1, s =>
    if s.pending.isEmpty then (.ok (), s)
    else
      let scan := s.table.scan s.pending
      match scan.error with
      | some (.fault f) => (.error (.fault f), { s with table := scan.table })
      | some err => (.error err, { s with table := scan.table, pending := scan.kept })
      | none =>
        let s := { s with table := scan.table, pending := scan.kept }
        if scan.resolved = 0 then (.ok (), s)
        else
          scans fuel { s with
            stats := { s.stats with
              passes := s.stats.passes + 1
              lastPasses := s.stats.lastPasses + 1
              resolved := s.stats.resolved + scan.resolved } }

/-- Solves the pending equations as far as they determine their variables (`Solve`). -/
def solve (s : EquationStore) : Except SolveError Unit × EquationStore :=
  scans (s.table.unresolved + 1)
    { s with stats := { s.stats with invocations := s.stats.invocations + 1, lastPasses := 0 } }

end EquationStore

end RegionCapture
