import RegionCapture.Compilation
import RegionCapture.Proofs.Origin
import RegionCapture.Proofs.Statistics

/-!
# Stages of a unit

What a stage makes of a unit in a world, and the world that it leaves (`StageM.outcome`). The check
of a unit without a module or with errors does nothing (`CompilationUnit.check_idle`), and else it
does what checking the module does (`CompilationUnit.check_of_module`). If the types of a unit can
be read, they can be read also after a check (`CompilationUnit.Sound.after_check`).
-/

namespace RegionCapture

namespace StageM

variable {α β : Type}

/-- What a step gives in a world, and the world it leaves. -/
def outcome (x : StageM α) (w : World) : Except Fault α × World := x.run w

theorem outcome_bind (x : StageM α) (f : α → StageM β) (w : World) :
    (x >>= f).outcome w = match x.outcome w with
      | (.ok a, w') => (f a).outcome w'
      | (.error e, w') => (.error e, w') := by
  show (ExceptT.bindCont f (x.run w).1) (x.run w).2 = _
  rcases h : x.run w with ⟨_ | a, w'⟩ <;> simp only [outcome, h] <;> rfl

end StageM

namespace CompilationUnit

open StageM

variable {u : CompilationUnit} {m : Module} {w : World}

/-! ## Single stages -/

theorem check_idle (h : u.module = none ∨ u.errors ≠ []) : (check u).outcome w = (.ok u, w) := by
  unfold check
  rcases hm : u.module with _ | m
  · rfl
  · have herrors : u.errors ≠ [] := h.resolve_left (by rw [hm]; nofun)
    simp only [List.isEmpty_eq_false_iff.2 herrors]
    rfl

/-- The unit after its module was accepted. -/
def accepted (u : CompilationUnit) (id : RunId) (table : Table)
    (report : CheckReport) : CompilationUnit :=
  { u with
    table := u.table.map fun _ => table, runId := id, annotations := some report.annotations }

/-- The unit after its module was rejected, before this is rendered. -/
def rejected (u : CompilationUnit) (table : Table) (d : Diagnostic) : CompilationUnit :=
  { u with table := u.table.map fun _ => table }.fail (.rejected d)

/-- What the stage makes of the outcome of checking the module. -/
def concluded (u : CompilationUnit) (w : World) :
    Except Failure CheckReport × Table → Except Fault CompilationUnit
  | (.ok report, table) => .ok (u.accepted (.ofNat (w.runs + 1)) table report)
  | (.error (.fault f), _) => .error f
  | (.error (.rejected d), table) => (u.rejected table d).render w.testing (.rejected d)

theorem check_of_module (hm : u.module = some m) (herrors : u.errors = []) :
    (check u).outcome w =
      (u.concluded w (RegionCapture.check u.symbols (u.options.getD .default) (u.table.getD {}) m),
        { w with runs := w.runs + 1 }) := by
  have hnew : World.newRun.outcome w =
      (.ok (.ofNat (w.runs + 1)), { w with runs := w.runs + 1 }) := rfl
  obtain ⟨symbols, table, module, options, diagnostics, request, runId, annotations, errors⟩ := u
  cases hm
  cases herrors
  simp only [check, List.isEmpty_nil, Bool.not_true, Bool.false_eq_true, if_false]
  rw [outcome_bind, hnew]
  rcases RegionCapture.check symbols (options.getD .default) (table.getD {}) m
    with ⟨(d | f) | report, final⟩ <;> rfl

theorem exportSignatures_idle (h : ∀ o, u.options = some o → o.exports.database = []) :
    (exportSignatures u).outcome w = (.ok u, w) := by
  unfold exportSignatures
  rcases u.annotations with _ | a
  · rfl
  rcases u.module with _ | m
  · rfl
  rcases ho : u.options with _ | o
  · rfl
  · simp only [h o ho, decide_true, Bool.or_true]
    rfl

/-! ## Stages in sequence -/

section
variable {stage : Stage} {stages : List Stage} {v : CompilationUnit} {w' : World}

theorem outcome_run_of_fault {f : Fault} (h : (stage u).outcome w = (.error f, w')) :
    (run (stage :: stages) u).outcome w = (.error f, w') := by
  rw [run, outcome_bind, h]

theorem outcome_run_of_failed (h : (stage u).outcome w = (.ok v, w')) (herrors : v.errors ≠ []) :
    (run (stage :: stages) u).outcome w = (.ok (v, 1), w') := by
  rw [run, outcome_bind, h]
  simp only [List.isEmpty_eq_false_iff.2 herrors]
  rfl

theorem outcome_run_of_passed (h : (stage u).outcome w = (.ok v, w')) (herrors : v.errors = []) :
    (run (stage :: stages) u).outcome w =
      (((run stages v).outcome w').1.map fun r => (r.1, r.2 + 1),
        ((run stages v).outcome w').2) := by
  rw [run, outcome_bind, h]
  simp only [herrors, List.isEmpty_nil, if_true]
  rw [outcome_bind]
  rcases (run stages v).outcome w' with ⟨f | ⟨v', n⟩, w''⟩ <;> rfl

end

/-! ## Units that can be checked -/

/-- The types of the module, if there is one, can be read over the table of the unit. -/
def Sound (u : CompilationUnit) : Prop := ∀ m, u.module = some m → m.WellTyped (u.table.getD {})

/-- The table that a check leaves can be read by the next one. -/
theorem Sound.after_check (h : u.Sound) (hm : u.module = some m) (options : Options) :
    m.WellTyped ((u.table.map fun _ =>
      (RegionCapture.check u.symbols options (u.table.getD {}) m).2).getD {}) := by
  cases htable : u.table with
  | none =>
    have hwell := h m hm
    rwa [htable] at hwell
  | some t =>
    have hwell : m.WellTyped t := by simpa [htable] using h m hm
    exact fun type htype => (hwell type htype).mono (Module.extends_check u.symbols options t m)

end CompilationUnit

end RegionCapture
