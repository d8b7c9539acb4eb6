import RegionCapture.Proofs.Arrival
import RegionCapture.Proofs.Stopping

/-!
# Inference without rejections

The traversal of the check with every obligation handed to a guard (`Check.traverse`). If the guard
does nothing it is the check itself (`Check.traverse_id`); if it ignores rejections
(`Check.ignoring`), what is left infers regions and annotates them, whether or not the program is
acceptable (`Module.infer`). Where the check succeeds, inference does the same
(`Check.yields_infer`).
-/

namespace RegionCapture

namespace Check

/-- Runs a step and goes on after a rejection, from the state in which it happened. -/
def ignoring (x : Check Unit) : Check Unit :=
  tryCatch x fun e => match e with
    | .rejected _ => pure ()
    | .fault f => throw (.fault f)

section
variable (guard : Check Unit → Check Unit) (env : CheckEnv)

/-- Settles a node with every obligation guarded. -/
def settleBy (regs : List RegionSet) (reg : RegionSet) : Tree → Check Unit
  | .function info symbol _ blocks result body => do
    guard (definitionEscape env info.token symbol result
      ((capabilities env blocks).add (.ofSymbol symbol)) body)
    annotate fun a => a.annotateSymbol symbol reg
  | .lambda info symbol _ blocks result slot body => do
    guard (matchSlot env info.token slot reg body)
    guard (definitionEscape env info.token symbol result
      ((capabilities env blocks).add (.ofSymbol symbol)) body)
    annotate fun a => a.annotateSymbol symbol reg
  | .handle info body handlers type =>
    guard (handlerEscape env info.token handlers type
      (Tree.regionsOf (handlers.map Handler.capability)) body)
  | .binding info symbol type _ => do
    guard (solveAt env info.token)
    let own ← orFault (type.freeRegions (← table))
    annotate fun a => a.annotateSymbol symbol own
  | .call info callee args _ type =>
    match calleeSignature env callee with
    | some sig => guard (instantiate env info.token sig (regs.drop (args.length + 1)) type)
    | none => pure ()
  | _ => pure ()

/-- Records a node, the verification of its scope being guarded. -/
def recordBy (scope : Scope) (info : Anchor) (reg : RegionSet) : Check RegionSet := do
  if env.options.verifyScopes then guard (verifyScope env scope info.token reg)
  modify fun s => { s with
    annotations := s.annotations.annotateNode info.id reg, nodes := s.nodes + 1 }
  return reg

/-- Leaves a node with every obligation guarded. -/
def leaveBy (scope : Scope) (regs : List RegionSet) (t : Tree) : Check RegionSet := do
  annotate t.markScope
  let reg := t.region regs (← get).annotations
  settleBy guard env regs reg t
  recordBy guard env scope t.anchor reg

/-- The traversal with every obligation guarded. -/
def traverse (scope : Scope) (t : Tree) : Check RegionSet :=
  if t.isHole then pure ∅ else do
    annotate (t.entry scope)
    let regs ← t.tasks.attach.mapM fun c => do
      annotate (resumedWith (t.inner scope) c.1.resume)
      traverse (t.inner scope) c.1.tree
    leaveBy guard env scope regs t
termination_by sizeOf t
decreasing_by exact Tree.sizeOf_lt_of_mem_tasks c.2

theorem outline_traverse : Outline (traverse guard env) (leaveBy guard env) := by
  refine ⟨fun scope => by rw [traverse]; rfl, fun scope t h => ?_⟩
  rw [traverse, if_neg (by simp [h])]
  have htasks : (t.tasks.attach.mapM fun c => do
      annotate (resumedWith (t.inner scope) c.1.resume)
      traverse guard env (t.inner scope) c.1.tree) =
        tasksBy (traverse guard env) (t.inner scope) t.tasks := by
    rw [List.mapM_subtype (g := fun c : Task =>
      annotate (resumedWith (t.inner scope) c.resume) >>= fun _ =>
        traverse guard env (t.inner scope) c.tree) fun _ _ => rfl, List.unattach_attach]
    rfl
  rw [htasks]

end

variable {guard : Check Unit → Check Unit} {env : CheckEnv} {scope : Scope} {t : Tree}
  {x : Check Unit} {s s' : CheckState} {u : Unit} {regs : List RegionSet} {reg : RegionSet}

/-! ## The check as a guarded traversal -/

theorem settleBy_id (env : CheckEnv) (regs : List RegionSet) (reg : RegionSet) (t : Tree) :
    settleBy (fun x => x) env regs reg t = settle env regs reg t := by
  cases t <;> rfl

theorem leaveBy_id (env : CheckEnv) : leaveBy (fun x => x) env = leave env := by
  funext scope regs t
  simp only [leaveBy, settleBy_id]
  rfl

theorem traverse_id (env : CheckEnv) : traverse (fun x => x) env = node env := by
  have hguarded := outline_traverse (fun x => x) env
  rw [leaveBy_id] at hguarded
  exact hguarded.eq_of_leave (outline_node env)

/-! ## Ignoring rejections -/

theorem outcome_ignoring (x : Check Unit) (s : CheckState) : (ignoring x).outcome s =
    match x.outcome s with
    | (.error (.rejected _), s') => (.ok (), s')
    | r => r := by
  show (ExceptT.tryCatch x _).run s = _
  simp only [ExceptT.tryCatch, ExceptT.run, ExceptT.mk, outcome]
  rcases h : x s with ⟨(e | f) | u, s'⟩
  all_goals
    simp only [bind, StateT.bind, h]
    rfl

/-- A step with its rejections ignored goes where the step goes, or where it rejects. -/
theorem yields_ignoring : Yields (ignoring x) s u s' ↔ Yields x s u s' ∨ ∃ d, Rejects x s d s' := by
  simp only [Yields, Rejects, outcome_ignoring]
  rcases x.outcome s with ⟨(d | f) | v, s₁⟩ <;> simp

theorem not_rejects_ignoring {d : Diagnostic} : ¬ Rejects (ignoring x) s d s' := by
  simp only [Rejects, outcome_ignoring]
  rcases x.outcome s with ⟨(d | f) | v, s₁⟩ <;> simp

/-- Infers the regions of a tree and annotates them; rejections are ignored. -/
def infer (env : CheckEnv) (scope : Scope) (t : Tree) : Check RegionSet :=
  traverse ignoring env scope t

theorem outline_infer (env : CheckEnv) : Outline (infer env) (leaveBy ignoring env) :=
  outline_traverse ignoring env

theorem yields_settleBy_ignoring (h : Yields (settle env regs reg t) s u s') :
    Yields (settleBy ignoring env regs reg t) s u s' := by
  have hguard : ∀ {x : Check Unit} {s s' : CheckState} {u : Unit},
      Yields x s u s' → Yields (ignoring x) s u s' :=
    fun h => yields_ignoring.2 (.inl h)
  cases t with
  | function | binding =>
    obtain ⟨v, s₁, hguarded, hrest⟩ := yields_bind.1 h
    exact yields_bind.2 ⟨v, s₁, hguard hguarded, hrest⟩
  | lambda =>
    obtain ⟨v, s₁, hmatch, hrest⟩ := yields_bind.1 h
    obtain ⟨w, s₂, hescape, hrest⟩ := yields_bind.1 hrest
    exact yields_bind.2 ⟨v, s₁, hguard hmatch, yields_bind.2 ⟨w, s₂, hguard hescape, hrest⟩⟩
  | handle => exact hguard h
  | call info callee args blockArgs type =>
    simp only [settle, settleBy] at h ⊢
    cases hsig : calleeSignature env callee with
    | none => simpa only [hsig] using h
    | some sig =>
      rw [hsig] at h
      exact hguard h
  | _ => exact h

theorem recordBy_of_not_verified (guard : Check Unit → Check Unit)
    (h : env.options.verifyScopes = false) (scope : Scope) (info : Anchor) (reg : RegionSet) :
    recordBy guard env scope info reg = record env scope info reg := by
  simp [recordBy, record, h]

theorem yields_leaveBy (hverify : env.options.verifyScopes = false) :
    Yields (leaveBy guard env scope regs t) s reg s' ↔
      reg = t.region regs (t.markScope s.annotations) ∧
      ∃ s₁, Yields (settleBy guard env regs reg t) { s
        with annotations := t.markScope s.annotations } () s₁ ∧
        s' = { s₁ with
          annotations := s₁.annotations.annotateNode t.id reg, nodes := s₁.nodes + 1 } := by
  simp only [leaveBy, recordBy_of_not_verified guard hverify, yields_bind, yields_annotate,
    yields_get, yields_record, hverify, Bool.false_eq_true, false_imp_iff, true_and]
  constructor
  · rintro ⟨⟨⟩, _, rfl, _, _, ⟨rfl, rfl⟩, ⟨⟩, s₁, hsettle, rfl, rfl⟩
    exact ⟨rfl, s₁, hsettle, rfl⟩
  · rintro ⟨rfl, s₁, hsettle, rfl⟩
    exact ⟨(), _, rfl, _, _, ⟨rfl, rfl⟩, (), s₁, hsettle, rfl, rfl⟩

/-- Where the check goes through, inference does the same. -/
theorem yields_infer (hverify : env.options.verifyScopes = false)
    (h : Yields (node env scope t) s reg s') :
    Yields (infer env scope t) s reg s' := by
  refine (outline_node env).mono (outline_infer env) (fun hleave => ?_) h
  obtain ⟨hreg, -, s₁, hsettle, rfl⟩ := yields_leave.1 hleave
  exact (yields_leaveBy hverify).2 ⟨hreg, s₁, yields_settleBy_ignoring hsettle, rfl⟩

end Check

/-- The annotations that inference makes for a unit, with all rejections ignored; a fault still
stops it. -/
def Module.infer (symbols : SymbolTable) (options : Options) (table : Table) (m : Module) :
    Except Failure Annotations :=
  let env := m.env symbols options
  let (outcome, final) := (do
    let _ ← Check.infer env {} m.tree
    Check.ignoring (Check.solveAt env m.info.token) : Check Unit).run (m.start table)
  outcome.map fun _ => final.annotations

open Check in
theorem Module.infer_eq_ok {symbols : SymbolTable} {options : Options} {table : Table} {m : Module}
    {a : Annotations} :
    m.infer symbols options table = .ok a ↔
      ∃ reg s final, Yields (Check.infer (m.env symbols options) {} m.tree) (m.start table) reg s ∧
        Yields (ignoring (solveAt (m.env symbols options) m.info.token)) s () final ∧
        a = final.annotations := by
  let run : Check Unit := do
    let _ ← Check.infer (m.env symbols options) {} m.tree
    ignoring (solveAt (m.env symbols options) m.info.token)
  have hrun : m.infer symbols options table =
      (run.outcome (m.start table)).1.map fun _ =>
      (run.outcome (m.start table)).2.annotations := rfl
  rw [hrun]
  constructor
  · intro h
    rcases hout : run.outcome (m.start table) with ⟨_ | ⟨⟨⟩⟩, final⟩
    · rw [hout] at h
      cases h
    · rw [hout] at h
      cases h
      obtain ⟨reg, s, hinfer, hsolve⟩ := yields_bind.1 hout
      exact ⟨reg, s, final, hinfer, hsolve, rfl⟩
  · rintro ⟨reg, s, final, hinfer, hsolve, rfl⟩
    have hout : run.outcome (m.start table) = (.ok (), final) :=
      yields_bind.2 ⟨reg, s, hinfer, hsolve⟩
    rw [hout]
    rfl

end RegionCapture
