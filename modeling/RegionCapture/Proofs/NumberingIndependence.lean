import RegionCapture.Proofs.Faultless
import RegionCapture.Proofs.Lockstep
import RegionCapture.Proofs.RenumberedUnit

/-!
# Checking a renumbered unit

The check does not depend on how symbols are numbered. The checks of a unit and of the renumbered
unit run in lockstep: at every node they hold tables, equations and annotations of which the second
ones are the first ones renumbered, and where one stops the other one stops at the same place for
the same reason. Only texts may differ, since sets are written in the order of the numbers; so of a
search for provenance it is shown that it ends in a fault for both or for neither
(`Provenance.isOk_explainEach`). Main statement `Module.numbering_irrelevant`.
-/

namespace RegionCapture

/-- The second annotations are the first ones, renumbered. -/
structure Annotations.Renumbered (π : Equiv.Perm SymbolId) (a a' : Annotations) : Prop where
  nodes : ∀ id, a'.node? id = (a.node? id).map (RegionSet.renumber π)
  symbols : ∀ x, a'.symbol? (π x) = (a.symbol? x).map (RegionSet.renumber π)
  scopes : ∀ id, a'.scope? id = (a.scope? id).map (RegionSet.renumber π)

variable {π : Equiv.Perm SymbolId}

namespace Annotations.Renumbered

variable {a a' : Annotations} (h : a.Renumbered π a')
include h

theorem annotateNode (id : NodeId) (s : RegionSet) :
    (a.annotateNode id s).Renumbered π (a'.annotateNode id (s.renumber π)) := by
  refine ⟨fun i => ?_, h.symbols, h.scopes⟩
  rw [node?_annotateNode, node?_annotateNode, h.nodes]
  split <;> rfl

theorem annotateSymbol (x : SymbolId) (s : RegionSet) :
    (a.annotateSymbol x s).Renumbered π (a'.annotateSymbol (π x) (s.renumber π)) := by
  refine ⟨h.nodes, fun y => ?_, h.scopes⟩
  rw [symbol?_annotateSymbol, symbol?_annotateSymbol, h.symbols]
  simp only [π.injective.eq_iff]
  split <;> rfl

theorem annotateScope (id : NodeId) (s : RegionSet) :
    (a.annotateScope id s).Renumbered π (a'.annotateScope id (s.renumber π)) := by
  refine ⟨h.nodes, h.symbols, fun i => ?_⟩
  rw [scope?_annotateScope, scope?_annotateScope, h.scopes]
  split <;> rfl

theorem symbolRegion (x : SymbolId) : a'.symbolRegion (π x) = (a.symbolRegion x).renumber π := by
  rw [Annotations.symbolRegion, Annotations.symbolRegion, h.symbols]
  cases a.symbol? x <;> rfl

theorem ownRegions (xs : List SymbolId) :
    (Tree.ownRegions xs a).Renumbered π (Tree.ownRegions (xs.map π) a') := by
  induction xs generalizing a a' with
  | nil => exact h
  | cons x xs ih =>
    have hx := h.annotateSymbol x (.singleton (.ofSymbol x))
    rw [RegionSet.renumber_singleton] at hx
    exact ih hx

theorem mentions (id : NodeId) (r : Region) : a'.mentions id (π r) = a.mentions id r := by
  rw [Annotations.mentions, Annotations.mentions, h.nodes]
  cases a.node? id with
  | none => rfl
  | some s => exact s.contains_renumber π r

end Annotations.Renumbered

/-! ## Annotating renumbered nodes -/

namespace Check

def renumbering (π : Equiv.Perm SymbolId) : Transport := ⟨π, RegionSet.renumber π, Tree.renumber π⟩

end Check

namespace Tree

open Check

variable {a a' : Annotations}

theorem inner_renumber (scope : Scope) (t : Tree) :
    (t.renumber π).inner ((renumbering π).scope scope) = (renumbering π).scope (t.inner scope) := by
  have hdefinition : ∀ (symbol : SymbolId) (blocks : List SymbolId),
      ((renumbering π).scope scope).enterDefinition (.ofSymbol (π symbol))
      (regionsOf (blocks.map π)) =
        (renumbering π).scope (scope.enterDefinition (.ofSymbol symbol) (regionsOf blocks)) := by
    intro symbol blocks
    simp only [Scope.enterDefinition, Transport.scope, renumbering, regionsOf_renumber,
      RegionSet.renumber_add, RegionSet.renumber_union, RegionSet.renumber_singleton]
    rfl
  cases t with
  | function info symbol params blocks result body => exact hdefinition symbol blocks
  | lambda info symbol params blocks result slot body => exact hdefinition symbol blocks
  | blockArg info params blocks body =>
    simp only [renumber, inner, Scope.enterBlock, Transport.scope, renumbering, regionsOf_renumber,
      RegionSet.renumber_union]
  | handle info body handlers type =>
    simp only [renumber, inner, Scope.enterHandler, Transport.scope, renumbering,
      capability_renumberHandlers, regionsOf_renumber, RegionSet.renumber_union]
  | _ => rfl

theorem entry_renumber (h : a.Renumbered π a') (scope : Scope) (t : Tree) :
    (t.entry scope a).Renumbered π ((t.renumber π).entry ((renumbering π).scope scope) a') := by
  cases t with
  | function info symbol params blocks result body =>
    exact (h.annotateSymbol symbol scope.static).ownRegions blocks
  | lambda info symbol params blocks result slot body =>
    exact (h.annotateSymbol symbol scope.static).ownRegions blocks
  | blockArg info params blocks body => exact h.ownRegions blocks
  | handle info body handlers type =>
    rw [renumber, entry, entry, capability_renumberHandlers]
    exact h.ownRegions _
  | cell info symbol init => exact h.annotateSymbol symbol scope.dynamic
  | _ => exact h

theorem markScope_renumber (h : a.Renumbered π a') (t : Tree) :
    (t.markScope a).Renumbered π ((t.renumber π).markScope a') := by
  have hid : (t.renumber π).id = t.id := congrArg Anchor.id (anchor_renumber π t)
  rw [markScope, markScope, bound_renumber, hid]
  cases t.bound with
  | none => exact h
  | some bound => exact h.annotateScope t.id bound

theorem region_renumber (h : a.Renumbered π a') (regs : List RegionSet) (t : Tree) :
    (t.renumber π).region (regs.map (RegionSet.renumber π)) a' = (t.region regs a).renumber π := by
  have hbound : unionAll (regs.map (RegionSet.renumber π)) \ (t.renumber π).bound.getD ∅ =
      (unionAll regs \ t.bound.getD ∅).renumber π := by
    rw [unionAll_renumber, bound_renumber, RegionSet.renumber_sdiff]
    cases t.bound <;> rfl
  cases t with
  | ref info symbol => exact h.symbolRegion symbol
  | assign info symbol value =>
    rw [renumber, region, region, h.symbolRegion, unionAll_renumber, RegionSet.renumber_union]
  | _ => exact hbound

end Tree

/-! ## Searching for provenance -/

theorem isOk_bind {ε α α' β β' : Type} {x : Except ε α} {x' : Except ε α'} {f : α → Except ε β}
    {f' : α' → Except ε β'} (hx : x'.isOk = x.isOk)
    (hf : ∀ a a', x = .ok a → x' = .ok a' → (f' a').isOk = (f a).isOk) :
    (x' >>= f').isOk = (x >>= f).isOk := by
  cases x with
  | error e =>
    cases x' with
    | error e' => rfl
    | ok a' => cases hx
  | ok a =>
    cases x' with
    | error e' => cases hx
    | ok a' => exact hf a a' rfl rfl

/-- That there is a result does not depend on what it is. -/
theorem isOk_pure {ε α β : Type} (a : α) (b : β) :
    (pure a : Except ε α).isOk = (pure b : Except ε β).isOk := rfl

theorem isOk_mapM {ε α β : Type} (f : α → Except ε β) (xs : List α) :
    (xs.mapM f).isOk = xs.all fun x => (f x).isOk := by
  induction xs with
  | nil => rfl
  | cons x xs ih =>
    rw [List.mapM_cons, List.all_cons, ← ih]
    cases f x with
    | error e => rfl
    | ok b => cases xs.mapM f <;> rfl

/-- What holds of all members of a set holds of all members of the renumbered set. -/
theorem RegionSet.all_renumber {p p' : Region → Bool} (h : ∀ r, p' (π r) = p r) (s : RegionSet) :
    (s.renumber π).elems.all p' = s.elems.all p := by
  rw [Bool.eq_iff_iff, List.all_eq_true, List.all_eq_true]
  constructor
  · intro hall r hr
    rw [← h]
    exact hall (π r) (mem_renumber.2 (by rwa [π.symm_apply_apply]))
  · intro hall r hr
    rw [← π.apply_symm_apply r, h]
    exact hall _ (mem_renumber.1 hr)

namespace Ty

variable {table : Table} {name name' : Region → String}

theorem isOk_formatSlot (slot : Option Term) :
    (formatSlot (table.renumber π) name' (slot.map (Term.renumber π))).isOk =
      (formatSlot table name slot).isOk := by
  cases slot with
  | none => rfl
  | some term =>
    rw [Option.map_some, formatSlot, formatSlot, Table.concrete_renumber]
    rcases table.concrete term with f | _ | s <;> rfl

mutual
theorem isOk_format :
    ∀ t : Ty, ((t.renumber π).format (table.renumber π) name').isOk = (t.format table name).isOk
  | absent => rfl
  | con _ _ => rfl
  | app ctor args => by
    rw [renumber, format, format]
    exact isOk_bind (isOk_formatAll args) fun _ _ _ _ => isOk_bind (isOk_format ctor) fun _ _ _ _ =>
      isOk_pure _ _
  | tuple elems => by
    rw [renumber, format, format]
    exact isOk_bind (isOk_formatAll elems) fun _ _ _ _ => isOk_pure _ _
  | fn params blocks result capture => by
    rw [renumber, format, format]
    exact isOk_bind (isOk_formatAll params) fun _ _ _ _ =>
      isOk_bind (isOk_formatAll blocks) fun _ _ _ _ =>
        isOk_bind (isOk_format result) fun _ _ _ _ =>
          isOk_bind (isOk_formatSlot capture) fun _ _ _ _ => isOk_pure _ _

theorem isOk_formatAll : ∀ ts : List Ty,
    (formatAll (table.renumber π) name' (renumberAll π ts)).isOk = (formatAll table name ts).isOk
  | [] => rfl
  | t :: ts => by
    rw [renumberAll, formatAll, formatAll]
    exact isOk_bind (isOk_format t) fun _ _ _ _ => isOk_bind (isOk_formatAll ts) fun _ _ _ _ =>
      isOk_pure _ _
end

end Ty

namespace Provenance

/-- The second search reads what the first one reads, renumbered. -/
structure Renumbered (π : Equiv.Perm SymbolId) (p p' : Provenance) : Prop where
  annotations : p.annotations.Renumbered π p'.annotations
  table : p'.table = p.table.renumber π
  maxDepth : p'.maxDepth = p.maxDepth

variable {p p' : Provenance} {r : Region} {levels : Nat}

theorem isOk_traceAll {ts : List Tree}
    (h : ∀ t ∈ ts, (p'.trace (π r) levels (t.renumber π)).isOk = (p.trace r levels t).isOk) :
    (p'.traceAll (π r) levels (Tree.renumberAll π ts)).isOk = (p.traceAll r levels ts).isOk := by
  induction ts with
  | nil => rfl
  | cons t ts ih =>
    obtain ⟨hfirst, hrest⟩ := List.forall_mem_cons.1 h
    rw [Tree.renumberAll, traceAll, traceAll]
    exact isOk_bind hfirst fun _ _ _ _ => isOk_bind (ih hrest) fun _ _ _ _ => isOk_pure _ _

theorem isOk_traceClauses {cs : List Clause}
    (h : ∀ c ∈ cs, (p'.trace (π r) levels (c.body.renumber π)).isOk =
      (p.trace r levels c.body).isOk) :
    (p'.traceClauses (π r) levels (Tree.renumberClauses π cs)).isOk =
      (p.traceClauses r levels cs).isOk := by
  induction cs with
  | nil => rfl
  | cons c cs ih =>
    obtain ⟨hfirst, hrest⟩ := List.forall_mem_cons.1 h
    obtain ⟨_, _, _, body⟩ := c
    rw [Tree.renumberClauses, traceClauses, traceClauses]
    exact isOk_bind hfirst fun _ _ _ _ => isOk_bind (ih hrest) fun _ _ _ _ => isOk_pure _ _

theorem isOk_traceHandlers {hs : List Handler}
    (h : ∀ c ∈ hs.flatMap Tree.clauseTasks,
      (p'.trace (π r) levels (c.tree.renumber π)).isOk = (p.trace r levels c.tree).isOk) :
    (p'.traceHandlers (π r) levels (Tree.renumberHandlers π hs)).isOk =
      (p.traceHandlers r levels hs).isOk := by
  induction hs with
  | nil => rfl
  | cons hd hs ih =>
    rw [List.flatMap_cons] at h
    obtain ⟨hfirst, hrest⟩ := List.forall_mem_append.1 h
    obtain ⟨_, _, _, clauses⟩ := hd
    have hclauses : ∀ c ∈ clauses,
        (p'.trace (π r) levels (c.body.renumber π)).isOk = (p.trace r levels c.body).isOk :=
      fun c hc => hfirst _ (List.mem_map.2 ⟨c, hc, rfl⟩)
    rw [Tree.renumberHandlers, traceHandlers, traceHandlers]
    exact isOk_bind (isOk_traceClauses hclauses) fun _ _ _ _ => isOk_bind (ih hrest) fun _ _ _ _ =>
      isOk_pure _ _

theorem isOk_guarded {b : Bool} {x x' : Except Fault Trace} (h : x'.isOk = x.isOk) :
    (if b then x' else .ok []).isOk = (if b then x else .ok []).isOk := by
  cases b with
  | true => exact h
  | false => rfl

theorem isOk_trace (hp : p.Renumbered π p') (levels : Nat) (t : Tree) :
    (p'.trace (π r) levels (t.renumber π)).isOk = (p.trace r levels t).isOk := by
  induction t using Tree.induction_on_tasks generalizing levels with
  | step t ih =>
    have hmentions : ∀ info, p'.mentions info (π r) = p.mentions info r :=
      fun info => hp.annotations.mentions info.id r
    cases levels with
    | zero => cases t <;> simp only [Tree.renumber, trace]
    | succ levels =>
      cases t with
      | hole | literal => simp only [Tree.renumber, trace]
      | ref info symbol =>
        rw [Tree.renumber, trace, trace]
        rfl
      | function info symbol params blocks result body =>
        rw [Tree.renumber, trace, trace, hmentions]
        exact isOk_guarded (isOk_bind (ih body.task List.mem_cons_self _) fun _ _ _ _ =>
          isOk_pure _ _)
      | lambda info symbol params blocks result slot body =>
        rw [Tree.renumber, trace, trace, hmentions]
        exact isOk_guarded (isOk_bind (ih body.task List.mem_cons_self _) fun _ _ _ _ =>
          isOk_pure _ _)
      | blockArg info params blocks body =>
        rw [Tree.renumber, trace, trace, hmentions]
        exact isOk_guarded (isOk_bind (ih body.task List.mem_cons_self _) fun _ _ _ _ =>
          isOk_pure _ _)
      | cell info symbol init =>
        rw [Tree.renumber, trace, trace, hmentions]
        exact isOk_guarded (ih init.task List.mem_cons_self _)
      | binding info symbol type init =>
        rw [Tree.renumber, trace, trace, hmentions]
        exact isOk_guarded (ih init.task List.mem_cons_self _)
      | assign info symbol value =>
        rw [Tree.renumber, trace, trace, hmentions]
        exact isOk_guarded (ih value.task List.mem_cons_self _)
      | module info name defs imports =>
        rw [Tree.renumber, trace, trace, hmentions]
        exact isOk_guarded (isOk_traceAll fun t ht => ih t.task (List.mem_map_of_mem ht) _)
      | block info stmts =>
        rw [Tree.renumber, trace, trace, hmentions]
        exact isOk_guarded (isOk_traceAll fun t ht => ih t.task (List.mem_map_of_mem ht) _)
      | handle info body handlers type =>
        rw [Tree.renumber, trace, trace, hmentions]
        exact isOk_guarded (isOk_bind (ih body.task List.mem_cons_self _) fun _ _ _ _ =>
          isOk_bind (isOk_traceHandlers fun c hc => ih c (List.mem_cons_of_mem _ hc) _)
            fun _ _ _ _ => isOk_pure _ _)
      | call info callee args blockArgs type =>
        have harg : ∀ t ∈ args ++ blockArgs,
            t.task ∈ (Tree.call info callee args blockArgs type).tasks :=
          fun t ht => List.mem_cons_of_mem _ (List.mem_map_of_mem ht)
        rw [Tree.renumber, trace, trace, hmentions]
        exact isOk_guarded (isOk_bind (ih callee.task List.mem_cons_self _) fun _ _ _ _ =>
          isOk_bind (isOk_traceAll fun t ht => ih t.task (harg t (List.mem_append_left _ ht)) _)
            fun _ _ _ _ =>
          isOk_bind (isOk_traceAll fun t ht => ih t.task (harg t (List.mem_append_right _ ht)) _)
            fun _ _ _ _ => isOk_pure _ _)
      | cond info condition consequence alternative =>
        rw [Tree.renumber, trace, trace, hmentions]
        exact isOk_guarded (isOk_bind (ih condition.task (by simp [Tree.tasks]) _) fun _ _ _ _ =>
          isOk_bind (ih consequence.task (by simp [Tree.tasks]) _) fun _ _ _ _ =>
          isOk_bind (ih alternative.task (by simp [Tree.tasks]) _) fun _ _ _ _ => isOk_pure _ _)
      | ret info value type =>
        have hvalue : ∀ levels, (p'.trace (π r) levels (value.renumber π)).isOk =
            (p.trace r levels value).isOk :=
          fun levels => ih value.task List.mem_cons_self levels
        rw [Tree.renumber, trace, trace, hmentions, hp.table, Ty.freeRegions_renumber]
        refine isOk_bind (by cases type.freeRegions p.table <;> rfl)
          fun free free' hfree hfree' => ?_
        obtain rfl : free.renumber π = free' := by
          rw [hfree] at hfree'
          exact Except.ok.inj hfree'
        rw [RegionSet.contains_renumber]
        split
        · refine isOk_bind (hvalue levels) fun _ _ _ _ => isOk_bind ?_ fun _ _ _ _ => isOk_pure _ _
          rw [typeText, typeText, hp.table]
          exact Ty.isOk_format type
        · exact isOk_guarded (hvalue (levels + 1))

theorem isOk_explain (hp : p.Renumbered π p') (t : Tree) :
    (p'.explain (π r) (t.renumber π)).isOk = (p.explain r t).isOk := by
  rw [explain, explain, hp.maxDepth]
  exact isOk_trace hp _ t

/-- The traces of all regions of a set end in a fault if those of the renumbered set do. -/
theorem isOk_explainEach (hp : p.Renumbered π p') (t : Tree) (rs : RegionSet) :
    (p'.explainEach (t.renumber π) (rs.renumber π)).isOk = (p.explainEach t rs).isOk := by
  refine isOk_bind ?_ fun _ _ _ _ => isOk_pure _ _
  rw [isOk_mapM, isOk_mapM]
  exact RegionSet.all_renumber (fun r => isOk_explain hp t) rs

end Provenance

/-! ## Steps in lockstep -/

/-- The check stops for the same reason at the same place. Texts may differ. -/
inductive Failure.SamePlace : Failure → Failure → Prop
  | rejected {d d' : Diagnostic} (code : d'.code = d.code) (token : d'.token = d.token) :
    SamePlace (.rejected d) (.rejected d')
  | fault (f f' : Fault) : SamePlace (.fault f) (.fault f')

structure CheckEnv.Renumbered (π : Equiv.Perm SymbolId) (env env' : CheckEnv) : Prop where
  options : env'.options = env.options
  kind : ∀ x, env'.symbols.kind (π x) = env.symbols.kind x
  signatures : ∀ x : SymbolId,
    env'.signatures[π x]? = env.signatures[x]?.map (CallSignature.renumber π)

structure CheckState.Renumbered (π : Equiv.Perm SymbolId) (s s' : CheckState) : Prop where
  store : s'.store = s.store.renumber π
  annotations : s.annotations.Renumbered π s'.annotations
  nodes : s'.nodes = s.nodes

namespace Check

/-- States correspond if the second one is the first one renumbered. -/
def renumbered (π : Equiv.Perm SymbolId) : Pairing where
  state := CheckState.Renumbered π
  failure := Failure.SamePlace

namespace Renumbered

variable {α β : Type} {V : α → β → Prop} {env env' : CheckEnv} {token : Token} {body : Tree}
  {reg : RegionSet}

theorem lockstep_orFault {x : Except Fault α} {x' : Except Fault β} (h : x'.isOk = x.isOk)
    (hV : ∀ a a', x = .ok a → x' = .ok a' → V a a') :
    Lockstep (renumbered π) V (orFault x) (orFault x') := by
  intro s s' hs
  cases x with
  | error f =>
    cases x' with
    | error f' => exact .inr ⟨.fault f f', hs⟩
    | ok a' => cases h
  | ok a =>
    cases x' with
    | error f' => cases h
    | ok a' => exact ⟨hV a a' rfl rfl, hs⟩

/-- Of a value that is renumbered, the image is found. -/
theorem lockstep_orFault_map {k : α → β} {x : Except Fault α} {x' : Except Fault β}
    (h : x' = x.map k) :
    Lockstep (renumbered π) (fun a a' => a' = k a) (orFault x) (orFault x') := by
  subst h
  refine lockstep_orFault (by cases x <;> rfl) fun a a' ha ha' => ?_
  rw [ha] at ha'
  exact (Except.ok.inj ha').symm

/-- To prepare a rejection it is enough that both searches end in a fault or neither does. -/
theorem lockstep_orFault_any {x : Except Fault α} {x' : Except Fault β} (h : x'.isOk = x.isOk) :
    Lockstep (renumbered π) (fun _ _ => True) (orFault x) (orFault x') :=
  lockstep_orFault h fun _ _ _ _ => trivial

theorem lockstep_table : Lockstep (renumbered π) (fun t t' => t' = t.renumber π) table table := by
  intro s s' hs
  exact ⟨congrArg EquationStore.table hs.store, hs⟩

theorem lockstep_annotate {f f' : Annotations → Annotations}
    (h : ∀ a a', a.Renumbered π a' → (f a).Renumbered π (f' a')) :
    Lockstep (renumbered π) Eq (annotate f) (annotate f') :=
  lockstep_modify fun s s' hs => ⟨hs.store, h s.annotations s'.annotations hs.annotations, hs.nodes⟩

theorem lockstep_equate {f f' : EquationStore → EquationStore}
    (h : ∀ store, f' (store.renumber π) = (f store).renumber π) :
    Lockstep (renumbered π) Eq (equate f) (equate f') :=
  lockstep_modify fun s _ hs => ⟨(congrArg f' hs.store).trans (h s.store), hs.annotations, hs.nodes⟩

theorem lockstep_solveAt (token : Token) :
    Lockstep (renumbered π) Eq (solveAt env token) (solveAt env' token) := by
  intro s s' hs
  rw [outcome_solveAt, outcome_solveAt, hs.store, EquationStore.solve_renumber]
  have hafter : CheckState.Renumbered π { s with store := s.store.solve.2 }
      { s' with store := s.store.solve.2.renumber π } := ⟨rfl, hs.annotations, hs.nodes⟩
  rcases s.store.solve.1 with (_ | _ | f) | _
  · exact .inr ⟨.rejected rfl rfl, hafter⟩
  · exact .inr ⟨.rejected rfl rfl, hafter⟩
  · exact .inr ⟨.fault f f, hafter⟩
  · exact ⟨rfl, hafter⟩

/-! ## The steps of the traversal -/

theorem lockstep_escape {type : Ty} {forbidden : RegionSet} {stop stop' : RegionSet → Check Unit}
    (h : ∀ free, Lockstep (renumbered π) Eq (stop free) (stop' (free.renumber π))) :
    Lockstep (renumbered π) Eq
      (do
        solveAt env token
        let free ← orFault (type.freeRegions (← table))
        unless (free ∩ forbidden).isEmpty do stop free)
      (do
        solveAt env' token
        let free ← orFault ((type.renumber π).freeRegions (← table))
        unless (free ∩ forbidden.renumber π).isEmpty do stop' free) := by
  refine (lockstep_solveAt token).bind fun _ _ _ => lockstep_table.bind ?_
  rintro t _ rfl
  refine (lockstep_orFault_map (Ty.freeRegions_renumber π t type)).bind ?_
  rintro free _ rfl
  rw [← RegionSet.renumber_inter, RegionSet.isEmpty_renumber]
  exact lockstep_ite Iff.rfl (lockstep_pure rfl) (h free)

theorem lockstep_instantiate (sig : CallSignature) (regs : List RegionSet) (type : Ty) :
    Lockstep (renumbered π) Eq (instantiate env token sig regs type)
      (instantiate env' token (sig.renumber π) (regs.map (RegionSet.renumber π))
        (type.renumber π)) := by
  unfold instantiate
  have habsent : (sig.renumber π).result.isAbsent = sig.result.isAbsent :=
    Ty.isAbsent_renumber π sig.result
  rw [Ty.isAbsent_renumber, habsent]
  refine lockstep_ite Iff.rfl (lockstep_pure rfl) (lockstep_table.bind ?_)
  rintro t _ rfl
  have hsubst : (sig.result.renumber π).subst (t.renumber π)
      ((sig.renumber π).passing (regs.map (RegionSet.renumber π))) =
      (sig.result.subst t (sig.passing regs)).map (Ty.renumber π) := by
    rw [CallSignature.passing_renumber, Ty.subst_renumber]
  refine (lockstep_orFault_map hsubst).bind ?_
  rintro result _ rfl
  refine (lockstep_equate fun store => ?_).bind fun _ _ _ => lockstep_solveAt token
  simp only [EquationStore.unify, EquationStore.renumber, Ty.pairs_renumber, List.map_append]

section
variable (henv : env.Renumbered π env')
include henv

theorem lockstep_provenance :
    Lockstep (renumbered π) (Provenance.Renumbered π) (provenance env) (provenance env') := by
  intro s s' hs
  refine ⟨⟨hs.annotations, congrArg EquationStore.table hs.store, ?_⟩, hs⟩
  exact congrArg (fun o => o.explain.maxDepth) henv.options

theorem lockstep_explainEach (rs : RegionSet) :
    Lockstep (renumbered π) (fun _ _ => True) (explainEach env rs body)
      (explainEach env' (rs.renumber π) (body.renumber π)) := by
  unfold explainEach
  rw [henv.options]
  refine lockstep_ite Iff.rfl ?_ (lockstep_pure trivial)
  exact (lockstep_provenance henv).bind fun p p' hp =>
    lockstep_orFault_any (Provenance.isOk_explainEach hp body rs)

theorem capabilities_renumber (xs : List SymbolId) :
    capabilities env' (xs.map π) = (capabilities env xs).renumber π := by
  have hkind : ((fun x => decide (env'.symbols.kind x = .capability)) ∘ π) =
      fun x => decide (env.symbols.kind x = .capability) := by
    funext x
    simp only [Function.comp, henv.kind]
  rw [capabilities, capabilities, List.filter_map, hkind, RegionSet.renumber_ofList, List.map_map,
    List.map_map]
  rfl

theorem lockstep_definitionEscape (symbol : SymbolId) (result : Ty) (forbidden : RegionSet) :
    Lockstep (renumbered π) Eq (definitionEscape env token symbol result forbidden body)
      (definitionEscape env' token (π symbol) (result.renumber π) (forbidden.renumber π)
        (body.renumber π)) := by
  dsimp only [definitionEscape]
  refine lockstep_escape fun free => ?_
  rw [← RegionSet.renumber_inter]
  exact (lockstep_explainEach henv _).bind fun _ _ _ => lockstep_reject (.rejected rfl rfl)

theorem lockstep_handlerTrace (handlers handlers' : List Handler) (leaked : RegionSet) :
    Lockstep (renumbered π) (fun _ _ => True) (handlerTrace env token handlers leaked body)
      (handlerTrace env' token handlers' (leaked.renumber π) (body.renumber π)) := by
  unfold handlerTrace
  rw [henv.options]
  refine lockstep_ite Iff.rfl ((lockstep_provenance henv).bind fun p p' hp => ?_)
    (lockstep_pure trivial)
  -- the capabilities are explained in the order of their numbers, so it is decided at once whether
  -- all of them can be
  rw [mapM_orFault, mapM_orFault]
  refine Lockstep.bind (lockstep_orFault_any ?_) fun _ _ _ => lockstep_pure trivial
  rw [isOk_mapM, isOk_mapM]
  refine RegionSet.all_renumber (fun r => isOk_bind (Provenance.isOk_explain hp body) ?_) leaked
  intro _ _ _ _
  rfl

theorem lockstep_handlerEscape (handlers handlers' : List Handler) (type : Ty) (bound : RegionSet) :
    Lockstep (renumbered π) Eq (handlerEscape env token handlers type bound body)
      (handlerEscape env' token handlers' (type.renumber π) (bound.renumber π)
        (body.renumber π)) := by
  dsimp only [handlerEscape]
  refine lockstep_escape fun free => (lockstep_provenance henv).bind fun p p' hp => ?_
  rw [← RegionSet.renumber_inter]
  exact (lockstep_handlerTrace henv handlers handlers' _).bind fun _ _ _ =>
    lockstep_reject (.rejected rfl rfl)

theorem lockstep_matchSlot (slot : Option Term) :
    Lockstep (renumbered π) Eq (matchSlot env token slot reg body)
      (matchSlot env' token (slot.map (Term.renumber π)) (reg.renumber π) (body.renumber π)) := by
  cases slot with
  | none => exact lockstep_pure rfl
  | some term =>
    refine lockstep_table.bind ?_
    rintro t _ rfl
    refine (lockstep_orFault_map (Table.apply_renumber π t term)).bind ?_
    rintro seen _ rfl
    cases seen with
    | set expected =>
      simp only [Term.renumber, RegionSet.subsetOf_renumber, ← RegionSet.renumber_sdiff]
      refine lockstep_ite Iff.rfl (lockstep_pure rfl)
        ((lockstep_provenance henv).bind fun p p' _ => ?_)
      exact (lockstep_explainEach henv _).bind fun _ _ _ => lockstep_reject (.rejected rfl rfl)
    | var v =>
      refine (lockstep_equate fun store => ?_).bind fun _ _ _ => lockstep_solveAt token
      simp only [EquationStore.add, EquationStore.renumber, List.map_append]
      rfl

theorem calleeSignature_renumber (callee : Tree) :
    calleeSignature env' (callee.renumber π) =
      (calleeSignature env callee).map (CallSignature.renumber π) := by
  cases callee with
  | ref info symbol => exact henv.signatures symbol
  | _ => rfl

theorem lockstep_settle (regs : List RegionSet) (t : Tree) :
    Lockstep (renumbered π) Eq (settle env regs reg t)
      (settle env' (regs.map (RegionSet.renumber π)) (reg.renumber π) (t.renumber π)) := by
  have hforbidden : ∀ (symbol : SymbolId) (blocks : List SymbolId),
      (capabilities env' (blocks.map π)).add (.ofSymbol (π symbol)) =
        ((capabilities env blocks).add (.ofSymbol symbol)).renumber π := by
    intro symbol blocks
    rw [capabilities_renumber henv, RegionSet.renumber_add]
    rfl
  cases t with
  | function info symbol params blocks result body =>
    simp only [Tree.renumber, settle, hforbidden]
    exact (lockstep_definitionEscape henv symbol result _).bind fun _ _ _ =>
      lockstep_annotate fun a a' h => h.annotateSymbol symbol reg
  | lambda info symbol params blocks result slot body =>
    simp only [Tree.renumber, settle, hforbidden]
    exact (lockstep_matchSlot henv slot).bind fun _ _ _ =>
      (lockstep_definitionEscape henv symbol result _).bind
        fun _ _ _ => lockstep_annotate fun a a' h => h.annotateSymbol symbol reg
  | handle info body handlers type =>
    simp only [Tree.renumber, settle, Tree.capability_renumberHandlers, Tree.regionsOf_renumber]
    exact lockstep_handlerEscape henv handlers _ type _
  | binding info symbol type init =>
    simp only [Tree.renumber, settle]
    refine (lockstep_solveAt info.token).bind fun _ _ _ => lockstep_table.bind ?_
    rintro t _ rfl
    refine (lockstep_orFault_map (Ty.freeRegions_renumber π t type)).bind ?_
    rintro own _ rfl
    exact lockstep_annotate fun a a' h => h.annotateSymbol symbol own
  | call info callee args blockArgs type =>
    simp only [Tree.renumber, settle, calleeSignature_renumber henv, Tree.renumberAll_eq_map,
      List.length_map, ← List.map_drop]
    cases calleeSignature env callee with
    | none => exact lockstep_pure rfl
    | some sig => exact lockstep_instantiate sig _ type
  | _ => exact lockstep_pure rfl

theorem lockstep_record (scope : Scope) (info : Anchor) :
    Lockstep (renumbered π) (renumbering π).Found (record env scope info reg)
      (record env' ((renumbering π).scope scope) info (reg.renumber π)) := by
  have hverify : Lockstep (renumbered π) Eq (verifyScope env scope info.token reg)
      (verifyScope env' ((renumbering π).scope scope) info.token (reg.renumber π)) := by
    unfold verifyScope
    have hlexical : ((renumbering π).scope scope).lexical = scope.lexical.renumber π := rfl
    rw [hlexical, RegionSet.subsetOf_renumber]
    refine lockstep_ite Iff.rfl (lockstep_pure rfl) ?_
    exact (lockstep_provenance henv).bind fun p p' _ => lockstep_reject (.rejected rfl rfl)
  have hmark : Lockstep (renumbered π) (renumbering π).Found
      (do
        modify fun s : CheckState => { s with
          annotations := s.annotations.annotateNode info.id reg, nodes := s.nodes + 1 }
        return reg)
      (do
        modify fun s : CheckState =>
          { s with
            annotations := s.annotations.annotateNode info.id (reg.renumber π)
            nodes := s.nodes + 1 }
        return reg.renumber π) := by
    refine (lockstep_modify fun s s' hs => ?_).bind fun _ _ _ => lockstep_pure rfl
    exact ⟨hs.store, hs.annotations.annotateNode info.id reg, congrArg (· + 1) hs.nodes⟩
  unfold record
  rw [henv.options]
  cases env.options.verifyScopes with
  | true => exact hverify.bind fun _ _ _ => hmark
  | false => exact hmark

theorem lockstep_leave (scope : Scope) (regs : List RegionSet) (t : Tree) :
    Lockstep (renumbered π) (renumbering π).Found (leave env scope regs t)
      (leave env' ((renumbering π).scope scope) (regs.map (RegionSet.renumber π))
        (t.renumber π)) := by
  refine (lockstep_annotate fun a a' h => Tree.markScope_renumber h t).bind fun _ _ _ =>
    lockstep_get.bind ?_
  intro s s' hs
  rw [Tree.region_renumber hs.annotations, Tree.anchor_renumber]
  exact (lockstep_settle henv regs t).bind fun _ _ _ => lockstep_record henv scope t.anchor

end

/-! ## Checking a unit -/

theorem renumbered_carries : (renumbered π).Carries (renumbering π) where
  hole := rfl
  present h := (Tree.isHole_renumber π _).trans h
  nothing := rfl
  tasks := Tree.tasks_renumber π
  inner := Tree.inner_renumber
  entered scope t _ _ hs := ⟨hs.store, Tree.entry_renumber hs.annotations scope t, hs.nodes⟩
  resumed := by
    intro scope r s s' hs
    cases r with
    | none => exact hs
    | some x => exact ⟨hs.store, hs.annotations.annotateSymbol x scope.dynamic, hs.nodes⟩

theorem lockstep_node (henv : env.Renumbered π env') (scope : Scope) (t : Tree) :
    Lockstep (renumbered π) (renumbering π).Found (node env scope t)
      (node env' ((renumbering π).scope scope) (t.renumber π)) :=
  lockstep_visit renumbered_carries (outline_node env) (outline_node env')
    (lockstep_leave henv) scope t

theorem lockstep_whole (henv : env.Renumbered π env') (m : Module) :
    Lockstep (renumbered π) Eq (whole env m) (whole env' (m.renumber π)) := by
  unfold whole
  rw [Module.tree_renumber]
  exact (lockstep_node henv {} m.tree).bind fun _ _ _ => lockstep_solveAt m.info.token

end Renumbered

end Check

namespace Module

open Check

theorem startAnnotations_renumber (m : Module) :
    m.startAnnotations.Renumbered π (m.renumber π).startAnnotations := by
  have hempty : Annotations.Renumbered π {} {} :=
    ⟨fun id => by simp [Annotations.node?], fun x => by simp [Annotations.symbol?],
      fun id => by simp [Annotations.scope?]⟩
  have himported : ∀ (is : List Imported) {a a' : Annotations}, a.Renumbered π a' →
      (is.foldl (fun a i => a.annotateSymbol i.symbol i.region) a).Renumbered π
        ((is.map (Imported.renumber π)).foldl
          (fun a i => a.annotateSymbol i.symbol i.region) a') := by
    intro is
    induction is with
    | nil => exact fun h => h
    | cons i is ih => exact fun h => ih (h.annotateSymbol i.symbol i.region)
  have hdefs : ∀ {f : Annotations → Tree → Annotations},
      (∀ (t : Tree) {a a' : Annotations},
      a.Renumbered π a' → (f a t).Renumbered π (f a' (t.renumber π))) →
      ∀ (ts : List Tree) {a a' : Annotations}, a.Renumbered π a' →
        (ts.foldl f a).Renumbered π ((ts.map (Tree.renumber π)).foldl f a') := by
    intro f hf ts
    induction ts with
    | nil => exact fun h => h
    | cons t ts ih => exact fun h => ih (hf t h)
  unfold startAnnotations
  refine hdefs (fun t a a' h => ?_) m.defs (himported m.imports hempty)
  cases t with
  | function info symbol params blocks result body => exact h.annotateSymbol symbol ∅
  | _ => exact h

theorem env_renumber {symbols : SymbolTable} (ρ : Renumbering symbols) (options : Options)
    (m : Module) :
    (m.env symbols options).Renumbered ρ.perm
      ((m.renumber ρ.perm).env (symbols.renumber ρ.perm) options) where
  options := rfl
  kind := ρ.kind_renumber
  signatures := m.signatures_renumber ρ.perm

/-- The check of a renumbered unit accepts if the check of the unit does, and then with the
renumbered annotations and equal statistics; it rejects with the same code at the same place; and it
leaves the renumbered table in any case. -/
theorem numbering_irrelevant {symbols : SymbolTable} (ρ : Renumbering symbols) (options : Options)
    (table : Table) (m : Module) :
    let original := check symbols options table m
    let renumbered := check (symbols.renumber ρ.perm) options (table.renumber ρ.perm)
      (m.renumber ρ.perm)
    renumbered.2 = original.2.renumber ρ.perm ∧
    ((∃ report report', original.1 = .ok report ∧ renumbered.1 = .ok report' ∧
        report.annotations.Renumbered ρ.perm report'.annotations ∧ report'.stats = report.stats) ∨
      (∃ d d', original.1 = .error (.rejected d) ∧ renumbered.1 = .error (.rejected d') ∧
        d'.code = d.code ∧
        d'.token = d.token) ∨
      ∃ f f', original.1 = .error (.fault f) ∧ renumbered.1 = .error (.fault f')) := by
  intro original renumbered
  have hstart : CheckState.Renumbered ρ.perm (m.start table)
      ((m.renumber ρ.perm).start (table.renumber ρ.perm)) :=
    ⟨rfl, m.startAnnotations_renumber, rfl⟩
  have haligned := Renumbered.lockstep_whole (env_renumber ρ options m) m _ _ hstart
  simp only [original, renumbered, check_eq]
  rcases h : (whole (m.env symbols options) m).outcome (m.start table) with ⟨e | _, s⟩ <;>
    rcases h' : (whole ((m.renumber ρ.perm).env (symbols.renumber ρ.perm) options)
      (m.renumber ρ.perm)).outcome
      ((m.renumber ρ.perm).start (table.renumber ρ.perm)) with ⟨e' | _, s'⟩ <;>
    rw [h, h'] at haligned
  · rcases haligned with hnever | ⟨hplace, hstate⟩
    · exact hnever.elim
    · refine ⟨congrArg EquationStore.table hstate.store, .inr ?_⟩
      cases hplace with
      | rejected hcode htoken => exact .inl ⟨_, _, rfl, rfl, hcode, htoken⟩
      | fault f f' => exact .inr ⟨f, f', rfl, rfl⟩
  · exact haligned.elim
  · exact haligned.elim
  · obtain ⟨-, hstate⟩ := haligned
    refine ⟨congrArg EquationStore.table hstate.store,
      .inl ⟨s.report, s'.report, rfl, rfl, hstate.annotations, ?_⟩⟩
    simp only [CheckState.report, hstate.store, hstate.nodes, EquationStore.renumber,
      Table.unresolved_renumber]

/-- A function, its block, and a function value. -/
def threeNames : SymbolTable :=
  ⟨[{ name := "f" }, { name := "g", kind := .blockParam }, { name := "<lambda>", kind := .lambda }]⟩

/-- The function and its block change numbers. -/
def swapped : Renumbering threeNames where
  perm := Equiv.swap 1 2
  fixes id h := by
    rcases SymbolTable.lookup_eq_none_iff.1 h with rfl | hlarge
    · rfl
    · have hsize : threeNames.size = 3 := rfl
      exact Equiv.swap_apply_of_ne_of_ne (Nat.ne_of_gt (by omega)) (Nat.ne_of_gt (by omega))

/-- A function in which a function value with an open slot uses the block. -/
def capturesBlock : Module where
  info := ⟨4, {}⟩
  name := "unit"
  defs :=
    [.function ⟨3, {}⟩ 1 [] [2] (.con "Int" "")
      (.lambda ⟨2, {}⟩ 3 [] [] (.con "Int" "") (some (.var 1)) (.ref ⟨1, {}⟩ 2))]
  imports := []

/-- The block is captured under either number, and the slot resolved to it. -/
theorem numbering_irrelevant_swapped :
    (check threeNames {} ⟨[none]⟩ capturesBlock).2 = ⟨[some (.singleton 2)]⟩ ∧
    (check (threeNames.renumber (Equiv.swap 1 2)) {} ⟨[none]⟩
      (capturesBlock.renumber (Equiv.swap 1 2))).2 =
      ⟨[some (.singleton 1)]⟩ ∧
    ∃ report report', (check threeNames {} ⟨[none]⟩ capturesBlock).1 = .ok report ∧
      (check (threeNames.renumber (Equiv.swap 1 2)) {} ⟨[none]⟩
        (capturesBlock.renumber (Equiv.swap 1 2))).1 =
        .ok report' ∧
      report.annotations.node? 2 = some (.singleton 2) ∧
      report'.annotations.node? 2 = some (.singleton 1) ∧
      report'.stats = report.stats := by
  obtain ⟨report, hcheck, hnode⟩ :=
    exists_report (f := fun r => r.annotations.node? 2) (x := some (.singleton 2))
      (F := ⟨[some (.singleton 2)]⟩)
      (show (check threeNames {} ⟨[none]⟩ capturesBlock).1.toOption.map _ = _ by decide +kernel)
      (by decide +kernel)
  obtain ⟨htable, houtcome⟩ := numbering_irrelevant swapped {} ⟨[none]⟩ capturesBlock
  rw [hcheck] at htable houtcome
  rcases houtcome with ⟨_, report', hok, hok', hannotations, hstats⟩ | ⟨_, _, hrejected, -⟩ |
    ⟨_, _, hfault, -⟩
  · cases hok
    have hblock : RegionSet.renumber swapped.perm (.singleton 2) = .singleton 1 := by decide
    refine ⟨by rw [hcheck], ?_, report, report', by rw [hcheck], hok', hnode, ?_, hstats⟩
    · exact htable.trans (by simp [Table.renumber, hblock])
    · rw [hannotations.nodes, hnode, Option.map_some, hblock]
  · cases hrejected
  · cases hfault

end Module

end RegionCapture
