import Std.Data.TreeMap
import RegionCapture.Tree

/-!
# Annotations

What an analysis of one unit finds out: the regions captured by evaluating a node, the regions a
symbol captures, and the regions bound by a binder node. A later annotation of the same node or
symbol replaces an earlier one.
-/

namespace RegionCapture

/-- Region sets attached to nodes, symbols and binders. -/
structure Annotations where
  nodes : Std.TreeMap NodeId RegionSet := {}
  symbols : Std.TreeMap SymbolId RegionSet := {}
  scopes : Std.TreeMap NodeId RegionSet := {}

namespace Annotations

instance : Inhabited Annotations := ⟨{}⟩

def annotateNode (a : Annotations) (id : NodeId) (s : RegionSet) : Annotations :=
  { a with nodes := a.nodes.insert id s }

def annotateSymbol (a : Annotations) (id : SymbolId) (s : RegionSet) : Annotations :=
  { a with symbols := a.symbols.insert id s }

def annotateScope (a : Annotations) (id : NodeId) (s : RegionSet) : Annotations :=
  { a with scopes := a.scopes.insert id s }

def node? (a : Annotations) (id : NodeId) : Option RegionSet := a.nodes[id]?

def symbol? (a : Annotations) (id : SymbolId) : Option RegionSet := a.symbols[id]?

def scope? (a : Annotations) (id : NodeId) : Option RegionSet := a.scopes[id]?

/-- The regions that a symbol captures; a symbol without annotation captures nothing. -/
def symbolRegion (a : Annotations) (id : SymbolId) : RegionSet := (a.symbol? id).getD ∅

def mentions (a : Annotations) (id : NodeId) (r : Region) : Bool :=
  (a.node? id).any fun s => s.contains r

def nodeCount (a : Annotations) : Nat := a.nodes.size

/-! ## Reading after writing -/

@[simp] theorem node?_annotateNode (a : Annotations) (i j : NodeId) (s : RegionSet) :
    (a.annotateNode i s).node? j = if i = j then some s else a.node? j := by
  simp [annotateNode, node?, Std.TreeMap.getElem?_insert]

@[simp] theorem symbol?_annotateSymbol (a : Annotations) (i j : SymbolId) (s : RegionSet) :
    (a.annotateSymbol i s).symbol? j = if i = j then some s else a.symbol? j := by
  simp [annotateSymbol, symbol?, Std.TreeMap.getElem?_insert]

@[simp] theorem scope?_annotateScope (a : Annotations) (i j : NodeId) (s : RegionSet) :
    (a.annotateScope i s).scope? j = if i = j then some s else a.scope? j := by
  simp [annotateScope, scope?, Std.TreeMap.getElem?_insert]

end Annotations

end RegionCapture
