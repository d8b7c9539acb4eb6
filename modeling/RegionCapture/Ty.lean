import RegionCapture.Region.Table

/-!
# Types

Types come from an earlier pass; the analysis looks only at the region slots inside them. A type may
be absent, for instance as the result of a function that returns nothing. Where a type has to be
there (the parts of an application, the elements of a tuple, parameters) printing an absent one is a
fault.
-/

namespace RegionCapture

/-- A type with region slots. -/
inductive Ty where
  /-- no type -/
  | absent
  /-- a type constant, with the module it comes from if it is imported -/
  | con (name module : String)
  /-- a type constructor applied to arguments -/
  | app (ctor : Ty) (args : List Ty)
  | tuple (elems : List Ty)
  /-- a function type. `capture` is the slot of a function value; the type of a block has none. -/
  | fn (params blocks : List Ty) (result : Ty) (capture : Option Term)
deriving Inhabited

namespace Ty

def isAbsent : Ty → Bool
  | absent => true
  | _ => false

def bracketed (parts : List String) : String := "(" ++ String.intercalate ", " parts ++ ")"

/-- A constructor with its arguments in angle brackets; without arguments it stands alone. -/
def applied (ctor : String) (args : List String) : String :=
  if args.isEmpty then ctor else ctor ++ "<" ++ String.intercalate ", " args ++ ">"

def arrow (params blocks : List String) (result capture : String) : String :=
  bracketed params ++ String.join (blocks.map fun b => " \x7b" ++ b ++ "\x7d") ++ " => " ++
    result ++ capture

def qualified (name module : String) : String :=
  if module = "" then name else module ++ "." ++ name

mutual
/-- A type with its slots as they stand (`String`); a function without result returns `Unit`. -/
def text : Ty → Except Fault String
  | absent => .error .absentPart
  | con name module => .ok (qualified name module)
  | app ctor args => do
    let args ← texts args
    return applied (← ctor.text) args
  | tuple elems => do return bracketed (← texts elems)
  | fn params blocks result capture => do
    let params ← texts params
    let blocks ← texts blocks
    let result ← if result.isAbsent then pure "Unit" else result.text
    let capture := match capture with
      | some c => " at " ++ c.text
      | none => ""
    return arrow params blocks result capture

/-- The texts of all types in a list. -/
def texts : List Ty → Except Fault (List String)
  | [] => .ok []
  | t :: ts => do
    let t ← t.text
    return t :: (← texts ts)
end

mutual
/-- The free region slots of a type, outermost first (`RegionTerms`). A function's parameters and
blocks bind theirs. -/
def slots : Ty → Except Fault (List Term)
  | absent => .error .absentPart
  | con _ _ => .ok []
  | app ctor args => do
    let c ← ctor.slots
    return c ++ (← slotsAll args)
  | tuple elems => slotsAll elems
  | fn _ _ result capture => do
    let r ← if result.isAbsent then pure [] else result.slots
    return capture.toList ++ r

/-- The free region slots of all types in a list, in order. -/
def slotsAll : List Ty → Except Fault (List Term)
  | [] => .ok []
  | t :: ts => do
    let s ← t.slots
    return s ++ (← slotsAll ts)
end

/-- The union of the sets that terms are known to stand for. -/
def unionKnown (table : Table) (terms : List Term) : Except Fault RegionSet :=
  terms.foldlM (fun acc term => do
    match ← table.concrete term with
    | some s => return acc ∪ s
    | none => return acc) ∅

/-- The union of all free slots whose set is known (`FreeRegions`). -/
def freeRegions (table : Table) (t : Ty) : Except Fault RegionSet :=
  if t.isAbsent then .ok ∅ else do unionKnown table (← t.slots)

/-- The open variables among terms, each where it occurs first. -/
def openVars (table : Table) (terms : List Term) : Except Fault (List RegionVar) :=
  terms.foldlM (fun acc term => do
    match ← table.apply term with
    | .var v => return if acc.contains v then acc else acc ++ [v]
    | .set _ => return acc) []

/-- The open variables among the free slots, each where it occurs first (`FreeRegionVars`). -/
def freeVars (table : Table) (t : Ty) : Except Fault (List RegionVar) :=
  if t.isAbsent then .ok [] else do openVars table (← t.slots)

end Ty

end RegionCapture
