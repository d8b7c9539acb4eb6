import RegionCapture.Fault
import RegionCapture.Region.Set

/-!
# Region variables and their table

A region slot of a type is a term: a set that is known, or a variable still to be inferred. A table
holds one cell per variable. A cell is written at most once, and every reader of a variable sees
what was written (`Table.lookup_resolve_self`, `Table.lookup_resolve_of_ne`).
-/

namespace RegionCapture

/-- What a region slot holds. -/
inductive Term where
  | set (s : RegionSet)
  | var (v : RegionVar)
deriving DecidableEq

namespace Term

instance : Inhabited Term := ⟨.set ∅⟩

def text : Term → String
  | set s => s.text
  | var v => v.text

end Term

/-- Why equations between region terms cannot be solved. -/
inductive SolveError where
  /-- two known sets that have to be equal differ -/
  | mismatch (left right : RegionSet)
  /-- a variable with a known set is given another one -/
  | alreadyResolved (v : RegionVar) (current wanted : RegionSet)
  /-- the terms break a promise -/
  | fault (f : Fault)
deriving DecidableEq

/-- The text an error is reported with. -/
def SolveError.message : SolveError → String
  | mismatch l r => "region mismatch: " ++ l.text ++ " is not equal to " ++ r.text
  | alreadyResolved v current wanted =>
    "region variable already resolved: " ++ v.text ++ " is " ++ current.text ++
      ", cannot become " ++ wanted.text
  | fault f => f.message

/-- The cells of the region variables, the one of variable `n + 1` at place `n`; an open cell is
`none`. -/
structure Table where
  cells : List (Option RegionSet) := []
deriving DecidableEq

namespace Table

instance : Inhabited Table := ⟨{}⟩

def newVar (t : Table) : RegionVar × Table := (t.cells.length + 1, ⟨t.cells ++ [none]⟩)

def size (t : Table) : Nat := t.cells.length

/-- The cell of a variable, if the table holds the variable. -/
def cell? (t : Table) : RegionVar → Option (Option RegionSet)
  | 0 => none
  | n + 1 => t.cells[n]?

/-- The set of a variable, if it is known. -/
def lookup (t : Table) (v : RegionVar) : Except Fault (Option RegionSet) :=
  match t.cell? v with
  | some c => .ok c
  | none => .error (.foreignVar v)

def write (t : Table) (v : RegionVar) (s : RegionSet) : Table := ⟨t.cells.set (v - 1) (some s)⟩

/-- Writes an open variable. A variable that holds the same set already is left alone. -/
def resolve (t : Table) (v : RegionVar) (s : RegionSet) : Except SolveError Table :=
  match t.cell? v with
  | none => .error (.fault (.foreignVar v))
  | some none => .ok (t.write v s)
  | some (some current) => if current = s then .ok t else .error (.alreadyResolved v current s)

/-- Replaces a variable with a known set by that set. -/
def apply (t : Table) : Term → Except Fault Term
  | .set s => .ok (.set s)
  | .var v => do
    match ← t.lookup v with
    | some s => return .set s
    | none => return .var v

/-- The set a term stands for, if it is known. -/
def concrete (t : Table) : Term → Except Fault (Option RegionSet)
  | .set s => .ok (some s)
  | .var v => t.lookup v

/-- The number of variables that are still open. -/
def unresolved (t : Table) : Nat := t.cells.countP Option.isNone

/-! ## Reading after writing -/

@[simp] theorem size_write (t : Table) (v : RegionVar) (s : RegionSet) :
    (t.write v s).size = t.size := by
  simp [write, size]

theorem cell?_write_self {t : Table} {v : RegionVar} {c : Option RegionSet} (s : RegionSet)
    (h : t.cell? v = some c) : (t.write v s).cell? v = some (some s) := by
  cases v with
  | zero => simp [cell?] at h
  | succ n =>
    have hn : n < t.cells.length := (List.getElem?_eq_some_iff.1 h).1
    simp [cell?, write, hn]

theorem cell?_write_of_ne {t : Table} {v w : RegionVar} (s : RegionSet) (hw : w ≠ v) (hv : v ≠ 0) :
    (t.write v s).cell? w = t.cell? w := by
  cases w with
  | zero => rfl
  | succ n =>
    have hn : v - 1 ≠ n := fun h => hw (h ▸ Nat.succ_pred hv)
    simp [cell?, write, List.getElem?_set_ne hn]

/-- A resolved variable reads back the set it was given. -/
theorem lookup_resolve_self {t u : Table} {v : RegionVar} {s : RegionSet}
    (h : t.resolve v s = .ok u) :
    u.lookup v = .ok (some s) := by
  unfold resolve at h
  split at h
  · cases h
  · next hc => cases h; simp [lookup, cell?_write_self s hc]
  · next hc =>
    split at h
    · next he => cases h; subst he; simp [lookup, hc]
    · cases h

/-- Resolving a variable leaves every other variable alone. -/
theorem lookup_resolve_of_ne {t u : Table} {v w : RegionVar} {s : RegionSet}
    (h : t.resolve v s = .ok u) (hw : w ≠ v) : u.lookup w = t.lookup w := by
  unfold resolve at h
  split at h
  · cases h
  · next hc =>
    cases h
    have hv : v ≠ 0 := fun h0 => by subst h0; simp [cell?] at hc
    simp only [lookup, cell?_write_of_ne s hw hv]
  · split at h
    · cases h; rfl
    · cases h

end Table

end RegionCapture
