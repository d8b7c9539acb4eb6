import Mathlib.Data.List.Basic
import RegionCapture.Proofs.Renumbering
import RegionCapture.Proofs.Run

/-!
# Renumbering a unit

A renumbering of a unit renumbers every symbol in its tree and its imports, and the regions in their
types. The shape of the tree stays, and so do the numbers and places of its nodes: a renumbered tree
has the renumbered trees below it (`Tree.tasks_renumber`), and its nodes are the renumbered nodes
(`Tree.nodes_renumber`). A renumbering of a table of symbols permutes those that are declared
(`Renumbering`); every symbol keeps what was declared for it (`Renumbering.lookup_renumber`).
-/

namespace RegionCapture

/-! ## Trees -/

def Param.renumber (π : Equiv.Perm SymbolId) (p : Param) : Param := ⟨π p.symbol, p.type.renumber π⟩

def Imported.renumber (π : Equiv.Perm SymbolId) (i : Imported) : Imported :=
  ⟨π i.symbol, i.blocks.map π, i.result.renumber π, i.region.renumber π⟩

mutual
/-- The tree with all its symbols renumbered, and the regions in its types with them. Nodes keep
their numbers. -/
def Tree.renumber (π : Equiv.Perm SymbolId) : Tree → Tree
  | hole => hole
  | module info name defs imports =>
    module info name (renumberAll π defs) (imports.map (Imported.renumber π))
  | function info symbol params blocks result body =>
    function info (π symbol) (params.map (Param.renumber π)) (blocks.map π) (result.renumber π)
      (body.renumber π)
  | lambda info symbol params blocks result slot body =>
    lambda info (π symbol) (params.map (Param.renumber π)) (blocks.map π) (result.renumber π)
      (slot.map (Term.renumber π)) (body.renumber π)
  | blockArg info params blocks body =>
    blockArg info (params.map (Param.renumber π)) (blocks.map π) (body.renumber π)
  | handle info body handlers type =>
    handle info (body.renumber π) (renumberHandlers π handlers) (type.renumber π)
  | cell info symbol init => cell info (π symbol) (init.renumber π)
  | binding info symbol type init => binding info (π symbol) (type.renumber π) (init.renumber π)
  | block info stmts => block info (renumberAll π stmts)
  | ref info symbol => ref info (π symbol)
  | assign info symbol value => assign info (π symbol) (value.renumber π)
  | call info callee args blockArgs type =>
    call info (callee.renumber π) (renumberAll π args) (renumberAll π blockArgs) (type.renumber π)
  | ret info value type => ret info (value.renumber π) (type.renumber π)
  | literal info value => literal info value
  | cond info condition consequence alternative =>
    cond info (condition.renumber π) (consequence.renumber π) (alternative.renumber π)

def Tree.renumberAll (π : Equiv.Perm SymbolId) : List Tree → List Tree
  | [] => []
  | t :: ts => t.renumber π :: renumberAll π ts

def Tree.renumberHandlers (π : Equiv.Perm SymbolId) : List Handler → List Handler
  | [] => []
  | ⟨token, capability, effect, clauses⟩ :: hs =>
    ⟨token, π capability, effect, renumberClauses π clauses⟩ :: renumberHandlers π hs

def Tree.renumberClauses (π : Equiv.Perm SymbolId) : List Clause → List Clause
  | [] => []
  | ⟨operation, params, resume, body⟩ :: cs =>
    ⟨π operation, params.map (Param.renumber π), π resume, body.renumber π⟩ :: renumberClauses π cs
end

def Task.renumber (π : Equiv.Perm SymbolId) (c : Task) : Task := ⟨c.resume.map π, c.tree.renumber π⟩

namespace Tree

variable (π : Equiv.Perm SymbolId)

theorem renumberAll_eq_map (ts : List Tree) : renumberAll π ts = ts.map (renumber π) := by
  induction ts with
  | nil => rfl
  | cons t ts ih => rw [renumberAll, ih, List.map_cons]

theorem capability_renumberHandlers (hs : List Handler) :
    (renumberHandlers π hs).map Handler.capability = (hs.map Handler.capability).map π := by
  induction hs with
  | nil => rfl
  | cons h hs ih =>
    obtain ⟨token, capability, effect, clauses⟩ := h
    rw [renumberHandlers, List.map_cons, List.map_cons, List.map_cons, ih]

theorem renumberClauses_eq_map (cs : List Clause) : renumberClauses π cs =
    cs.map fun c => ⟨π c.operation, c.params.map (Param.renumber π), π c.resume,
      c.body.renumber π⟩ := by
  induction cs with
  | nil => rfl
  | cons c cs ih =>
    obtain ⟨operation, params, resume, body⟩ := c
    rw [renumberClauses, ih, List.map_cons]

theorem clauseTasks_renumberHandlers (hs : List Handler) :
    (renumberHandlers π hs).flatMap clauseTasks =
      (hs.flatMap clauseTasks).map (Task.renumber π) := by
  induction hs with
  | nil => rfl
  | cons h hs ih =>
    obtain ⟨token, capability, effect, clauses⟩ := h
    rw [renumberHandlers, List.flatMap_cons, List.flatMap_cons, List.map_append, ih, clauseTasks,
      clauseTasks, renumberClauses_eq_map, List.map_map, List.map_map]
    rfl

theorem head?_renumber (t : Tree) : (t.renumber π).head? = t.head? := by
  cases t <;> simp only [renumber, head?]

theorem anchor_renumber (t : Tree) : (t.renumber π).anchor = t.anchor := by
  simp only [anchor, id, token, head?_renumber]

theorem isHole_renumber (t : Tree) : (t.renumber π).isHole = t.isHole := by
  simp only [isHole, head?_renumber]

theorem tasks_renumber (t : Tree) : (t.renumber π).tasks = t.tasks.map (Task.renumber π) := by
  have hall : ∀ ts : List Tree,
      (renumberAll π ts).map task = (ts.map task).map (Task.renumber π) := by
    intro ts
    rw [renumberAll_eq_map, List.map_map, List.map_map]
    rfl
  cases t with
  | module info name defs imports => exact hall defs
  | block info stmts => exact hall stmts
  | call info callee args blockArgs type =>
    rw [renumber, tasks, tasks, List.map_append, hall, hall, ← List.map_append, ← List.map_append]
    rfl
  | handle info body handlers type =>
    rw [renumber, tasks, tasks, clauseTasks_renumberHandlers]
    rfl
  | _ => rfl

theorem nodes_renumber (t : Tree) : (t.renumber π).nodes = t.nodes.map (renumber π) := by
  induction t using induction_on_tasks with
  | step t ih =>
    cases hhole : t.isHole with
    | true =>
      rw [eq_hole hhole]
      rfl
    | false =>
      rw [nodes_eq hhole, nodes_eq ((isHole_renumber π t).trans hhole), tasks_renumber,
        List.flatMap_map, List.map_cons, List.map_flatMap]
      exact congrArg _ (List.flatMap_congr fun c hc => ih c hc)

theorem regionsOf_renumber (xs : List SymbolId) :
    regionsOf (xs.map π) = (regionsOf xs).renumber π := by
  rw [regionsOf, regionsOf, RegionSet.renumber_ofList, List.map_map, List.map_map]
  rfl

theorem bound_renumber (t : Tree) : (t.renumber π).bound = t.bound.map (RegionSet.renumber π) := by
  have hown : ∀ (symbol : SymbolId) (blocks : List SymbolId),
      (regionsOf (blocks.map π)).add (.ofSymbol (π symbol)) =
        ((regionsOf blocks).add (.ofSymbol symbol)).renumber π := by
    intro symbol blocks
    rw [regionsOf_renumber, RegionSet.renumber_add]
    rfl
  cases t with
  | function info symbol params blocks result body => exact congrArg some (hown symbol blocks)
  | lambda info symbol params blocks result slot body => exact congrArg some (hown symbol blocks)
  | blockArg info params blocks body => exact congrArg some (regionsOf_renumber π blocks)
  | handle info body handlers type =>
    rw [renumber, bound, bound, capability_renumberHandlers, regionsOf_renumber]
    rfl
  | _ => rfl

end Tree

/-! ## Units -/

def CallSignature.renumber (π : Equiv.Perm SymbolId) (sig : CallSignature) : CallSignature :=
  ⟨sig.blocks.map π, sig.result.renumber π⟩

theorem CallSignature.passing_renumber (π : Equiv.Perm SymbolId) (sig : CallSignature)
    (regs : List RegionSet) :
    (sig.renumber π).passing (regs.map (RegionSet.renumber π)) = (sig.passing regs).renumber π := by
  suffices hfold : ∀ (ps : List (SymbolId × RegionSet)) (s : RegionSubst),
      (ps.map (Prod.map π (RegionSet.renumber π))).foldl (fun s b => s.bind (.ofSymbol b.1) b.2)
      (s.renumber π) =
        (ps.foldl (fun s b => s.bind (.ofSymbol b.1) b.2) s).renumber π by
    have hzip := hfold (sig.blocks.zip regs) []
    rwa [← List.zip_map] at hzip
  intro ps
  induction ps with
  | nil => exact fun s => rfl
  | cons p ps ih => exact fun s => ih (s.bind (.ofSymbol p.1) p.2)

namespace Module

def renumber (π : Equiv.Perm SymbolId) (m : Module) : Module :=
  ⟨m.info, m.name, m.defs.map (Tree.renumber π), m.imports.map (Imported.renumber π)⟩

variable (π : Equiv.Perm SymbolId) (m : Module)

theorem tree_renumber : (m.renumber π).tree = m.tree.renumber π := by
  rw [tree, tree, Tree.renumber, Tree.renumberAll_eq_map]
  rfl

theorem definedSignature_renumber (t : Tree) :
    definedSignature (t.renumber π) =
      (definedSignature t).map (Prod.map π (CallSignature.renumber π)) := by
  cases t <;> rfl

theorem signatureList_renumber :
    (m.renumber π).signatureList = m.signatureList.map (Prod.map π (CallSignature.renumber π)) := by
  have himports : (m.renumber π).imports = m.imports.map (Imported.renumber π) := rfl
  rw [signatureList, signatureList, tree_renumber, Tree.nodes_renumber, himports, List.map_append,
    List.map_map, List.map_map, List.filterMap_map, List.map_filterMap]
  refine congrArg _ (List.filterMap_congr fun t _ => ?_)
  exact definedSignature_renumber π t

theorem signatures_renumber (x : SymbolId) :
    (m.renumber π).signatures[π x]? = m.signatures[x]?.map (CallSignature.renumber π) := by
  suffices hfold :
      ∀ (ps : List (SymbolId × CallSignature)) (sigs sigs' : Std.TreeMap SymbolId CallSignature),
      (∀ x, sigs'[π x]? = sigs[x]?.map (CallSignature.renumber π)) → ∀ x,
      ((ps.map (Prod.map π (CallSignature.renumber π))).foldl
      (fun sigs s => sigs.insert s.1 s.2) sigs')[π x]? =
        (ps.foldl (fun sigs s => sigs.insert s.1 s.2) sigs)[x]?.map (CallSignature.renumber π) by
    rw [signatures, signatureList_renumber]
    exact hfold m.signatureList {} {} (fun x => by simp) x
  intro ps
  induction ps with
  | nil => exact fun sigs sigs' h => h
  | cons p ps ih =>
    intro sigs sigs' h
    refine ih _ _ fun x => ?_
    rw [Std.TreeMap.getElem?_insert, Std.TreeMap.getElem?_insert]
    simp only [Prod.map, Std.compare_eq_iff_eq, π.injective.eq_iff]
    by_cases hx : p.1 = x
    · rw [if_pos hx, if_pos hx]
      rfl
    · rw [if_neg hx, if_neg hx]
      exact h x

end Module

/-! ## Tables of symbols -/

def SymbolTable.renumber (π : Equiv.Perm SymbolId) (t : SymbolTable) : SymbolTable :=
  ⟨(List.range t.size).map fun n => (t.lookup (π.symm (n + 1))).getD {}⟩

/-- A renumbering of the declared symbols. Other numbers are kept. -/
structure Renumbering (symbols : SymbolTable) where
  perm : Equiv.Perm SymbolId
  fixes : ∀ id, symbols.lookup id = none → perm id = id

namespace SymbolTable

variable {t : SymbolTable} {id : SymbolId}

theorem lookup_eq_none_iff : t.lookup id = none ↔ id = 0 ∨ t.size < id := by
  cases id with
  | zero => simp [lookup]
  | succ n =>
    have hn : t.lookup (n + 1) = none ↔ t.size ≤ n := List.getElem?_eq_none_iff
    rw [hn]
    exact ⟨fun h => .inr (Nat.lt_succ_of_le h),
      fun h => Nat.le_of_lt_succ (h.resolve_left (Nat.succ_ne_zero n))⟩

end SymbolTable

namespace Renumbering

variable {symbols : SymbolTable} (ρ : Renumbering symbols)

theorem declared_iff (id : SymbolId) :
    symbols.lookup (ρ.perm id) = none ↔ symbols.lookup id = none := by
  constructor
  · intro h
    have hfix : ρ.perm id = id := ρ.perm.injective (ρ.fixes _ h)
    rwa [hfix] at h
  · intro h
    rwa [ρ.fixes id h]

/-- A symbol is found under its new number. -/
theorem lookup_renumber (id : SymbolId) :
    (symbols.renumber ρ.perm).lookup (ρ.perm id) = symbols.lookup id := by
  have hsize : (symbols.renumber ρ.perm).size = symbols.size := by
    simp [SymbolTable.renumber, SymbolTable.size]
  cases h : symbols.lookup id with
  | none =>
    have hid := (ρ.declared_iff id).2 h
    rw [SymbolTable.lookup_eq_none_iff] at hid ⊢
    rwa [hsize]
  | some s =>
    have hid : symbols.lookup (ρ.perm id) ≠ none := by
      rw [Ne, ρ.declared_iff, h]
      nofun
    rw [Ne, SymbolTable.lookup_eq_none_iff, not_or] at hid
    obtain ⟨n, hn⟩ := Nat.exists_eq_succ_of_ne_zero hid.1
    have hlt : n < symbols.size := by omega
    rw [hn]
    have hback : ρ.perm.symm (n + 1) = id := by rw [Equiv.symm_apply_eq, hn]
    have hentry : (symbols.renumber ρ.perm).lookup (n + 1) =
        some ((symbols.lookup (ρ.perm.symm (n + 1))).getD {}) := by
      simp [SymbolTable.lookup, SymbolTable.renumber, hlt]
    rw [Nat.succ_eq_add_one, hentry, hback, h]
    rfl

example : (SymbolTable.mk [{ name := "f" }, { name := "g" }]).renumber (Equiv.swap 1 2) =
    ⟨[{ name := "g" }, { name := "f" }]⟩ := by decide

theorem kind_renumber (id : SymbolId) :
    (symbols.renumber ρ.perm).kind (ρ.perm id) = symbols.kind id := by
  rw [SymbolTable.kind, SymbolTable.kind, ρ.lookup_renumber]

end Renumbering

end RegionCapture
