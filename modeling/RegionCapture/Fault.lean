/-!
# Faults

A fault stops the analysis at once: the input breaks a promise that earlier passes make, so there is
no place in the program to blame.
-/

namespace RegionCapture

/-- The number of a region variable; variables are numbered from one. -/
abbrev RegionVar := Nat

def RegionVar.text (v : RegionVar) : String := "?r" ++ toString (show Nat from v)

/-- A broken promise of the input. -/
inductive Fault where
  /-- a region variable that the table in use does not hold -/
  | foreignVar (v : RegionVar)
  /-- a part that has to be there is absent -/
  | absentPart
deriving DecidableEq

def Fault.message : Fault → String
  | foreignVar v => "regions: variable " ++ v.text ++ " does not belong to this table"
  | absentPart => "regions: a part that has to be there is absent"

end RegionCapture
