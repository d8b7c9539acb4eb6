import RegionCapture.Proofs.Recheck
import RegionCapture.Proofs.Report
import RegionCapture.Proofs.SolverLoop
import RegionCapture.Proofs.Stopping

/-!
# What the statistics of a check count

Checks may share a table, one after the other, whether they accept their unit or not. Main statement
`CheckInput.shared_table_accounted`: no check adds a variable to the table or changes one that is
known, and an accepted check counts every variable that it resolves, once. The balance is kept by
solving (`EquationStore.Accounted`), so by every move of a run (`Check.Steps.accounted`).

An accepted check also counts its nodes. Main statement `Module.annotates_walked`: it annotates the
nodes that a walk of the unit visits and no others, and counts one node per visit.
-/

namespace RegionCapture

/-! ## Counting resolved variables -/

namespace EquationStore

/-- On the way from the first store to the second every variable that was resolved is counted once,
and no scan is counted that resolved nothing. -/
structure Accounted (s s' : EquationStore) : Prop where
  balance : s'.table.unresolved + s'.stats.resolved = s.table.unresolved + s.stats.resolved
  passes : s'.stats.passes + s.stats.resolved ≤ s.stats.passes + s'.stats.resolved

theorem Accounted.refl (s : EquationStore) : s.Accounted s := ⟨rfl, Nat.le_refl _⟩

theorem Accounted.trans {s s₁ s' : EquationStore} (h : s.Accounted s₁) (h' : s₁.Accounted s') :
    s.Accounted s' := by
  obtain ⟨hb, hp⟩ := h
  obtain ⟨hb', hp'⟩ := h'
  exact ⟨by omega, by omega⟩

theorem accounted_solve {s s' : EquationStore} (h : s.solve = (.ok (), s')) : s.Accounted s' := by
  have hruns := runsTo_solve s
  rw [h] at hruns
  obtain ⟨-, hpasses, hbound, hresolved⟩ := hruns.tally
  have hcounted := hresolved rfl
  simp only [begun] at hpasses hbound hcounted
  exact ⟨by omega, by omega⟩

end EquationStore

namespace Check

variable {P : Footprint} {s s' : CheckState}

theorem Move.accounted (h : Move P s s') : s.store.Accounted s'.store := by
  cases h with
  | annotate => exact .refl _
  | record => exact .refl _
  | equate => exact ⟨rfl, Nat.le_refl _⟩
  | solve store solved => exact EquationStore.accounted_solve solved

theorem Steps.accounted (h : Steps P s s') : s.store.Accounted s'.store := by
  induction h with
  | refl => exact .refl _
  | tail _ hm ih => exact ih.trans hm.accounted

end Check

/-! ## Checks that share a table -/

open Check in
/-- However a check ends, it has lost no knowledge. -/
theorem Module.extends_check (symbols : SymbolTable) (options : Options) (table : Table)
    (m : Module) :
    table.Extends (check symbols options table m).2 := by
  have hwhole : Orderly (fun _ => True) (whole (m.env symbols options) m) :=
    (orderly_node (fun _ _ => trivial) m.tree).bind fun _ => orderly_solveAt trivial
  rw [check_eq]
  exact hwhole.extends_table (m.start table)

open Check in
theorem Module.accounted_check {symbols : SymbolTable} {options : Options} {table F : Table}
    {m : Module} {report : CheckReport} (h : check symbols options table m = (.ok report, F)) :
    table.unresolved = report.stats.resolvedVars + report.stats.openVars ∧
    report.stats.openVars = F.unresolved ∧
      report.stats.solverPasses ≤ report.stats.resolvedVars := by
  obtain ⟨reg, s, final, hnode, hsolve, rfl, rfl⟩ := check_eq_ok.1 h
  have hsolve := (equates_solveAt hsolve).steps m.tree.footprint
  obtain ⟨hbalance, hpasses⟩ := ((steps_node hnode).trans hsolve).accounted
  -- the counters of a store start at zero
  have hopen : (m.start table).store.table.unresolved = table.unresolved := rfl
  have hresolved : (m.start table).store.stats.resolved = 0 := rfl
  have hscans : (m.start table).store.stats.passes = 0 := rfl
  show table.unresolved = final.store.stats.resolved + final.store.table.unresolved ∧
    final.store.table.unresolved = final.store.table.unresolved ∧
    final.store.stats.passes ≤ final.store.stats.resolved
  omega

/-- A unit to be checked, with what its check reads. -/
structure CheckInput where
  symbols : SymbolTable
  options : Options
  unit : Module

namespace CheckInput

def checkOver (i : CheckInput) (table : Table) : Except Failure CheckReport × Table :=
  check i.symbols i.options table i.unit

/-- The table that checks leave which share it, one after the other. -/
def tableAfter (inputs : List CheckInput) (table : Table) : Table :=
  inputs.foldl (fun t i => (i.checkOver t).2) table

theorem extends_tableAfter (inputs : List CheckInput) (table : Table) :
    table.Extends (tableAfter inputs table) := by
  induction inputs generalizing table with
  | nil => exact .refl table
  | cons i inputs ih => exact (i.unit.extends_check i.symbols i.options table).trans (ih _)

/-- Checks that share a table, whether they accept their units or not, add no variable to it and
never change the set of a variable that is known. Whenever one of them accepts its unit, the
variables that were open before are those that it counts as resolved and those that it leaves open,
and it counts at most one scan per variable that it resolves. -/
theorem shared_table_accounted (earlier later : List CheckInput) (table : Table) :
    (tableAfter earlier table).Extends (tableAfter (earlier ++ later) table) ∧
    ∀ i report after, checkOver i (tableAfter earlier table) = (.ok report, after) →
      (tableAfter earlier table).unresolved = report.stats.resolvedVars + report.stats.openVars ∧
      report.stats.openVars = after.unresolved ∧
      report.stats.solverPasses ≤ report.stats.resolvedVars := by
  refine ⟨?_, fun i report after h => Module.accounted_check h⟩
  rw [tableAfter, tableAfter, List.foldl_append]
  exact extends_tableAfter later _

/-- A function that makes a function value out of its block. Its type says that it returns a
function value that captures the given regions. -/
def maker (slot : RegionVar) (returned : RegionSet) : CheckInput where
  symbols := {}
  options := {}
  unit := ⟨⟨4, {}⟩, "unit",
    [.function ⟨3, {}⟩ 1 [] [2] (.fn [] [] (.con "Int" "") (some (.set returned)))
    (.lambda ⟨2, {}⟩ 3 [] [] (.con "Int" "") (some (.var slot)) (.ref ⟨1, {}⟩ 2))], []⟩

/-- The first check resolves a variable and then rejects its unit, which returns its own region.
What it resolved stays, and is not open any more when the second check counts. -/
theorem shared_table_accounted_afterRejection :
    (checkOver (maker 1 (.singleton 1)) ⟨[none, none, none]⟩).1.toOption.isNone ∧
    tableAfter [maker 1 (.singleton 1)] ⟨[none, none, none]⟩ = ⟨[some (.singleton 2), none, none]⟩ ∧
    ∃ report, checkOver (maker 2 ∅) ⟨[some (.singleton 2), none, none]⟩ =
        (.ok report, ⟨[some (.singleton 2), some (.singleton 2), none]⟩) ∧
      2 = report.stats.resolvedVars + report.stats.openVars ∧ report.stats.openVars = 1 ∧
      report.stats.solverPasses ≤ report.stats.resolvedVars ∧
      Table.Extends ⟨[some (.singleton 2), none, none]⟩
        ⟨[some (.singleton 2), some (.singleton 2), none]⟩ := by
  have hfirst : tableAfter [maker 1 (.singleton 1)] ⟨[none, none, none]⟩ =
      ⟨[some (.singleton 2), none, none]⟩ := by
    decide +kernel
  have hsecond : tableAfter ([maker 1 (.singleton 1)] ++ [maker 2 ∅]) ⟨[none, none, none]⟩ =
      ⟨[some (.singleton 2), some (.singleton 2), none]⟩ := by
    decide +kernel
  obtain ⟨report, hreport, -⟩ := Module.exists_report (f := fun _ => ()) (x := ())
    (F := ⟨[some (.singleton 2), some (.singleton 2), none]⟩)
    (show (checkOver (maker 2 ∅) ⟨[some (.singleton 2), none, none]⟩).1.toOption.map _ = _
      by decide +kernel)
    (by decide +kernel)
  obtain ⟨hextends, hcounts⟩ :=
    shared_table_accounted [maker 1 (.singleton 1)] [maker 2 ∅] ⟨[none, none, none]⟩
  rw [hfirst] at hextends hcounts
  rw [hsecond] at hextends
  exact ⟨by decide +kernel, hfirst, report, hreport, (hcounts _ report _ hreport).1,
    (hcounts _ report _ hreport).2.1,
    (hcounts _ report _ hreport).2.2, hextends⟩

end CheckInput

/-! ## Counting nodes -/

namespace Check

variable {env : CheckEnv} {scope : Scope} {t : Tree} {ts : List Task} {s s' : CheckState}
  {reg : RegionSet} {regs : List RegionSet} {id : NodeId}

/-- Leaving a node annotates the node and no other. -/
theorem annotated_leave (h : Yields (leave env scope regs t) s reg s') :
    (∃ r, s'.annotations.node? id = some r) ↔
    (∃ r, s.annotations.node? id = some r) ∨ id = t.id := by
  obtain ⟨-, -, s₁, hsettle, rfl⟩ := yields_leave.1 h
  have hsettled : s₁.annotations.node? id = (t.markScope s.annotations).node? id :=
    (steps_settle hsettle).sameOutside.nodes id nofun
  have hmarked : (t.markScope s.annotations).node? id = s.annotations.node? id := by
    unfold Tree.markScope
    cases t.bound <;> rfl
  rw [Annotations.node?_annotateNode, hsettled, hmarked]
  by_cases hid : t.id = id
  · simp [hid]
  · simp [hid, Ne.symm hid]

theorem annotated_tasks (h : Yields (tasks env scope ts) s regs s')
    (ih : ∀ c ∈ ts, ∀ {scope s reg s'}, Yields (node env scope c.tree) s reg s' →
      ((∃ r, s'.annotations.node? id = some r) ↔
        (∃ r, s.annotations.node? id = some r) ∨ id ∈ c.tree.ids)) :
    (∃ r, s'.annotations.node? id = some r) ↔
      (∃ r, s.annotations.node? id = some r) ∨ ∃ c ∈ ts, id ∈ c.tree.ids := by
  induction ts generalizing s regs with
  | nil =>
    rw [(yields_tasks_nil.1 h).2]
    simp
  | cons c ts ihts =>
    obtain ⟨reg, s₁, regs', hnode, hrest, rfl⟩ := yields_tasks_cons.1 h
    have hfirst := ih c List.mem_cons_self hnode
    rw [node?_resumed] at hfirst
    rw [ihts hrest fun d hd => ih d (List.mem_cons_of_mem c hd), hfirst, or_assoc]
    simp

/-- Checking a tree annotates its nodes and no others. -/
theorem annotated_node (h : Yields (node env scope t) s reg s') :
    (∃ r, s'.annotations.node? id = some r) ↔
    (∃ r, s.annotations.node? id = some r) ∨ id ∈ t.ids := by
  induction t using Tree.induction_on_tasks generalizing scope s reg s' with
  | step t ih =>
    cases hhole : t.isHole with
    | true =>
      rw [Tree.eq_hole hhole] at h ⊢
      rw [(yields_hole.1 h).2]
      simp [Tree.ids, Tree.nodes, Tree.walk]
    | false =>
      obtain ⟨regs, s₁, hbelow, hleave⟩ := (yields_node hhole).1 h
      have htasks := annotated_tasks hbelow fun c hc => ih c hc
      rw [node?_entered] at htasks
      rw [annotated_leave hleave, htasks, Tree.ids_eq hhole, List.mem_cons,
        List.mem_flatMap, or_assoc]
      exact or_congr_right or_comm

end Check

theorem Annotations.nodeCount_eq {a : Annotations} {ids : List NodeId} (hids : ids.Nodup)
    (h : ∀ id, (∃ reg, a.node? id = some reg) ↔ id ∈ ids) : a.nodeCount = ids.length := by
  have hperm : a.nodes.keys.Perm ids := by
    refine (List.perm_ext_iff_of_nodup Std.TreeMap.nodup_keys hids).2 fun id => ?_
    rw [Std.TreeMap.mem_keys, Std.TreeMap.mem_iff_isSome_getElem?, Option.isSome_iff_exists]
    exact h id
  rw [nodeCount, ← Std.TreeMap.length_keys]
  exact hperm.length_eq

namespace Module

open Check

variable {symbols : SymbolTable} {options : Options} {table F : Table} {m : Module}
  {report : CheckReport}

theorem node?_startAnnotations (m : Module) (id : NodeId) : m.startAnnotations.node? id = none :=
  m.startAnnotations_induction (P := fun a => a.node? id = none) rfl (fun _ _ _ ha => ha)
    fun _ _ ha => ha

theorem annotated_iff (h : check symbols options table m = (.ok report, F)) (id : NodeId) :
    (∃ reg, report.annotations.node? id = some reg) ↔ id ∈ m.tree.ids := by
  obtain ⟨reg, s, final, hnode, hsolve, rfl, -⟩ := check_eq_ok.1 h
  have hannotated : (∃ r, s.annotations.node? id = some r) ↔
      (∃ r, m.startAnnotations.node? id = some r) ∨ id ∈ m.tree.ids := annotated_node hnode
  rw [node?_startAnnotations] at hannotated
  show (∃ r, final.annotations.node? id = some r) ↔ _
  rw [(equates_solveAt hsolve).annotations_eq, hannotated]
  simp

/-- An accepted check annotates the nodes that a walk of the unit visits and no others, and it
counts one node per visit. So if all nodes have different numbers, it counts the annotated ones. -/
theorem annotates_walked (h : check symbols options table m = (.ok report, F)) :
    (∀ id, (∃ reg, report.annotations.node? id = some reg) ↔
      ∃ n ∈ m.tree.walk fun _ => true, n.id = id) ∧
    report.stats.nodes = (m.tree.walk fun _ => true).length ∧
    (m.tree.ids.Nodup → report.stats.nodes = report.annotations.nodeCount) := by
  refine ⟨fun id => ?_, nodes_eq h, fun hids => ?_⟩
  · rw [annotated_iff h, Tree.ids, List.mem_map]
    rfl
  · rw [nodes_eq h, Annotations.nodeCount_eq hids (annotated_iff h), Tree.ids, List.length_map]

/-- Among the eighteen nodes are the body of a handler clause and a block that is passed on; nothing
else has a number. -/
theorem annotates_walked_oneOfEach :
    ∃ report, check {} {} ⟨[none]⟩ oneOfEach = (.ok report, ⟨[some (.singleton 2)]⟩) ∧
      oneOfEach.tree.ids.Nodup ∧
      report.annotations.nodeCount = 18 ∧
      ∀ id reg, report.annotations.node? id = some reg → 0 < id ∧ id ≤ 18 := by
  obtain ⟨report, hcheck, hnodes⟩ := exists_report (f := fun r => r.stats.nodes) (x := 18)
    (F := ⟨[some (.singleton 2)]⟩)
    (show (check {} {} ⟨[none]⟩ oneOfEach).1.toOption.map _ = _ by decide +kernel)
    (by decide +kernel)
  have hids : oneOfEach.tree.ids.Nodup := by decide
  obtain ⟨hannotated, -, hcount⟩ := annotates_walked hcheck
  refine ⟨report, hcheck, hids, (hcount hids).symm.trans hnodes, fun id reg hid => ?_⟩
  have hall : ∀ n ∈ oneOfEach.tree.walk fun _ => true, 0 < n.id ∧ n.id ≤ 18 := by decide
  obtain ⟨n, hn, rfl⟩ := (hannotated id).1 ⟨reg, hid⟩
  exact hall n hn

end Module

end RegionCapture
