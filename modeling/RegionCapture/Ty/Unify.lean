import RegionCapture.Ty
import RegionCapture.Region.Equation

/-!
# Pairing the slots of two types

Two types of the same shape have corresponding region slots. Unifying the types pairs these slots;
where the shapes differ there is nothing to pair, and the walk stops there.
-/

namespace RegionCapture

namespace Ty

def slotPair : Option Term → Option Term → List Equation
  | some a, some b => [⟨a, b⟩]
  | _, _ => []

mutual
/-- The equations between the corresponding free slots of two types, outermost first. -/
def pairs : Ty → Ty → List Equation
  | app ctor args, app ctor' args' =>
    if args.length = args'.length then ctor.pairs ctor' ++ pairsAll args args' else []
  | tuple elems, tuple elems' => if elems.length = elems'.length then pairsAll elems elems' else []
  | fn _ _ result capture, fn _ _ result' capture' =>
    slotPair capture capture' ++ result.pairs result'
  | _, _ => []

/-- The equations of types that stand at the same place of two lists. -/
def pairsAll : List Ty → List Ty → List Equation
  | t :: ts, u :: us => t.pairs u ++ pairsAll ts us
  | _, _ => []
end

end Ty

namespace EquationStore

/-- Records that the corresponding slots of two types have to be equal (`UnifyRegions`). -/
def unify (s : EquationStore) (t u : Ty) : EquationStore :=
  { s with pending := s.pending ++ t.pairs u }

end EquationStore

end RegionCapture
