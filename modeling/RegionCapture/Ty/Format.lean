import RegionCapture.Ty

/-!
# Types for a reader

A type in a message shows the sets of its slots as far as they are known, with a name for every
region.
-/

namespace RegionCapture.Ty

/-- A slot for a reader: its set if it is known, and its variable otherwise. -/
def formatSlot (table : Table) (name : Region → String) : Option Term → Except Fault String
  | none => .ok ""
  | some term => do
    match ← table.concrete term with
    | some s => return " at " ++ s.format name
    | none => return " at " ++ term.text

mutual
/-- A type with its known slots filled in and its regions named (`FormatRegions`); an absent type is
`Unit`. -/
def format (table : Table) (name : Region → String) : Ty → Except Fault String
  | absent => .ok "Unit"
  | con n m => .ok (qualified n m)
  | app ctor args => do
    let args ← formatAll table name args
    return applied (← ctor.format table name) args
  | tuple elems => do return bracketed (← formatAll table name elems)
  | fn params blocks result capture => do
    let params ← formatAll table name params
    let blocks ← formatAll table name blocks
    let result ← result.format table name
    return arrow params blocks result (← formatSlot table name capture)

/-- The texts of all types in a list. -/
def formatAll (table : Table) (name : Region → String) : List Ty → Except Fault (List String)
  | [] => .ok []
  | t :: ts => do
    let t ← t.format table name
    return t :: (← formatAll table name ts)
end

end RegionCapture.Ty
