import RegionCapture.Ty

/-!
# Substituting regions in types

At a call the regions of the callee's block parameters are replaced by the regions of the blocks
passed for them. All regions are replaced at once: a replacement is not looked at again.
-/

namespace RegionCapture

/-- Replacements for regions; an earlier entry of a region hides a later one. -/
abbrev RegionSubst := List (Region × RegionSet)

namespace RegionSubst

/-- Adds a replacement, in place of any earlier one for the region. -/
def bind (s : RegionSubst) (r : Region) (image : RegionSet) : RegionSubst := (r, image) :: s

/-- The replacement of a region, which is the region itself if there is none. -/
def image (s : RegionSubst) (r : Region) : RegionSet := (s.lookup r).getD (.singleton r)

def onSet (s : RegionSubst) (rs : RegionSet) : RegionSet :=
  rs.elems.foldl (fun acc r => acc ∪ s.image r) ∅

/-- Replaces the regions of a slot whose set is known; other slots are kept. -/
def onSlot (s : RegionSubst) (table : Table) : Option Term → Except Fault (Option Term)
  | none => .ok none
  | some term => do
    match ← table.concrete term with
    | some rs => return some (.set (s.onSet rs))
    | none => return some term

end RegionSubst

namespace Ty

mutual
/-- Replaces regions in every slot, also in those of parameters and blocks. -/
def substAll (table : Table) (s : RegionSubst) : Ty → Except Fault Ty
  | absent => .ok absent
  | con name module => .ok (con name module)
  | app ctor args => do
    let args ← substEach table s args
    return app (← ctor.substAll table s) args
  | tuple elems => do return tuple (← substEach table s elems)
  | fn params blocks result capture => do
    let params ← substEach table s params
    let blocks ← substEach table s blocks
    let result ← result.substAll table s
    return fn params blocks result (← s.onSlot table capture)

/-- Replaces regions in every slot of every type in a list. -/
def substEach (table : Table) (s : RegionSubst) : List Ty → Except Fault (List Ty)
  | [] => .ok []
  | t :: ts => do
    let t ← t.substAll table s
    return t :: (← substEach table s ts)
end

/-- Replaces regions in every slot (`SubstituteRegions`). With nothing to replace the type is not
looked at. -/
def subst (table : Table) (s : RegionSubst) (t : Ty) : Except Fault Ty :=
  if s.isEmpty then .ok t else t.substAll table s

end Ty

end RegionCapture
