import RegionCapture.Region.Set

/-!
# Scopes

The region context of a place in the program. It is passed down the tree, so leaving a binder needs
no bookkeeping.
-/

namespace RegionCapture

/-- The region context of a node. -/
structure Scope where
  /-- what the body of a binder runs under: the definition's own region or the capabilities of the
  innermost handler, widened by the block parameters bound since -/
  static : RegionSet := ∅
  /-- the innermost dynamic extent: the enclosing definition's own region or the capabilities of the
  innermost handler -/
  dynamic : RegionSet := ∅
  /-- every region bound by an enclosing binder -/
  lexical : RegionSet := ∅
deriving DecidableEq

namespace Scope

/-- The body of a function with its own region and its block parameters. -/
def enterDefinition (s : Scope) (self : Region) (bound : RegionSet) : Scope :=
  { static := .singleton self, dynamic := .singleton self, lexical := (s.lexical ∪ bound).add self }

/-- The body of a block, which runs in the extent of its caller. -/
def enterBlock (s : Scope) (bound : RegionSet) : Scope :=
  { s with static := s.static ∪ bound, lexical := s.lexical ∪ bound }

/-- A handled body or a handler clause: the handled capabilities replace the static region and the
extent. -/
def enterHandler (s : Scope) (bound : RegionSet) : Scope :=
  { static := bound, dynamic := bound, lexical := s.lexical ∪ bound }

end Scope

end RegionCapture
