import RegionCapture.Proofs.Run

/-!
# How a check stops

A check that rejects its unit leaves a state as well (`Check.Rejects`). Whatever the outcome of a
step, it loses no knowledge about region variables, and the codes it rejects with are known
beforehand (`Check.Orderly`). Settling a node never reports a broken invariant
(`Check.orderly_settle`), so what is left of such reports is the verification of scopes when a node
is recorded (`Check.not_rejects_record`).
-/

namespace RegionCapture

namespace Check

variable {α β : Type} {x : Check α} {f : α → Check β} {s s' : CheckState} {d : Diagnostic}
  {P : Code → Prop}

/-- The step stops with a diagnostic and leaves a state. -/
def Rejects (x : Check α) (s : CheckState) (d : Diagnostic) (s' : CheckState) : Prop :=
  x.outcome s = (.error (.rejected d), s')

theorem Yields.not_rejects {a : α} {s₁ : CheckState} (h : Yields x s a s₁) :
    ¬ Rejects x s d s' := by
  rw [Rejects, show x.outcome s = _ from h]
  nofun

theorem rejects_bind : Rejects (x >>= f) s d s' ↔
    Rejects x s d s' ∨ ∃ a s₁, Yields x s a s₁ ∧ Rejects (f a) s₁ d s' := by
  simp only [Rejects, Yields, outcome_bind]
  rcases x.outcome s with ⟨_ | a, s₁⟩ <;> simp [and_assoc]

theorem not_rejects_modify {g : CheckState → CheckState} : ¬ Rejects (modify g) s d s' := by
  simp [Rejects, outcome_modify]

/-- Whatever its outcome, the step loses no knowledge, and it rejects only with codes of the given
kind. -/
structure Orderly (P : Code → Prop) (x : Check α) : Prop where
  extends_table : ∀ s : CheckState, s.store.table.Extends (x.outcome s).2.store.table
  code : ∀ s d s', Rejects x s d s' → P d.code

/-! ## Orderly steps in sequence -/

theorem Orderly.bind (hx : Orderly P x) (hf : ∀ a, Orderly P (f a)) : Orderly P (x >>= f) := by
  refine ⟨fun s => ?_, fun s d s' h => ?_⟩
  · have hext := hx.extends_table s
    rw [outcome_bind]
    rcases hout : x.outcome s with ⟨_ | a, s₁⟩
    · rwa [hout] at hext
    · rw [hout] at hext
      exact hext.trans ((hf a).extends_table s₁)
  · rcases rejects_bind.1 h with h | ⟨a, s₁, -, h⟩
    · exact hx.code s d s' h
    · exact (hf a).code s₁ d s' h

theorem orderly_pure (a : α) : Orderly P (pure a : Check α) :=
  ⟨fun _ => .refl _, fun s d s' h => by simp [Rejects, outcome_pure] at h⟩

theorem orderly_reject (h : P d.code) : Orderly P (reject d : Check α) := by
  refine ⟨fun _ => .refl _, fun s e s' he => ?_⟩
  simp only [Rejects, reject, outcome_throw, Prod.mk.injEq, Except.error.injEq,
    Failure.rejected.injEq] at he
  exact he.1 ▸ h

theorem orderly_orFault (r : Except Fault α) : Orderly P (orFault r) := by
  cases r with
  | ok a => exact orderly_pure a
  | error f =>
    exact ⟨fun _ => .refl _, fun s d s' h => by simp [Rejects, orFault, outcome_throw] at h⟩

theorem orderly_get : Orderly P (get : Check CheckState) :=
  ⟨fun _ => .refl _, fun s d s' h => by simp [Rejects, outcome_get] at h⟩

theorem orderly_modify {g : CheckState → CheckState}
    (h : ∀ s : CheckState, s.store.table.Extends (g s).store.table) :
    Orderly P (modify g) :=
  ⟨h, fun _ _ _ hd => absurd hd not_rejects_modify⟩

theorem orderly_annotate (g : Annotations → Annotations) : Orderly P (annotate g) :=
  orderly_modify fun _ => .refl _

theorem orderly_equate {g : EquationStore → EquationStore}
    (h : ∀ store, (g store).table = store.table) :
    Orderly P (equate g) :=
  orderly_modify fun s => (h s.store).symm ▸ .refl _

theorem orderly_table : Orderly P table := orderly_get.bind fun _ => orderly_pure _

theorem orderly_ite {p : Prop} [Decidable p] {x y : Check α} (hx : Orderly P x) (hy : Orderly P y) :
    Orderly P (if p then x else y) := by
  split
  · exact hx
  · exact hy

theorem orderly_mapM {g : β → Check α} (h : ∀ b, Orderly P (g b)) (bs : List β) :
    Orderly P (bs.mapM g) := by
  induction bs with
  | nil =>
    rw [List.mapM_nil]
    exact orderly_pure []
  | cons b bs ih =>
    rw [List.mapM_cons]
    exact (h b).bind fun a => ih.bind fun as => orderly_pure (a :: as)

/-! ## The steps of the traversal -/

section
variable {env : CheckEnv} {token : Token}

theorem orderly_provenance : Orderly P (provenance env) := orderly_get.bind fun _ => orderly_pure _

theorem orderly_explainEach (rs : RegionSet) (root : Tree) : Orderly P (explainEach env rs root) :=
  orderly_ite (orderly_provenance.bind fun _ => orderly_orFault _) (orderly_pure [])

theorem orderly_handlerTrace (token : Token) (handlers : List Handler) (leaked : RegionSet)
    (body : Tree) :
    Orderly P (handlerTrace env token handlers leaked body) := by
  unfold handlerTrace
  refine orderly_ite (orderly_provenance.bind fun p => ?_) (orderly_pure [])
  exact (orderly_mapM (fun _ => (orderly_orFault _).bind fun _ => orderly_pure _) _).bind fun _ =>
    orderly_pure _

/-- Solving rejects two sets that differ, and nothing else. -/
theorem rejects_solveAt (h : Rejects (solveAt env token) s d s') : d.code = .mismatch := by
  simp only [Rejects, solveAt, outcome_bind, outcome_get, outcome_modify] at h
  cases hsolve : s.store.solve.1 with
  | ok => simp [hsolve, outcome_pure] at h
  | error e =>
    rcases (EquationStore.solve_outcome s.store).stops e hsolve with ⟨l, r, rfl, -⟩ | ⟨⟨f, rfl⟩, -⟩
    · simp only [hsolve, provenance, unsolvable, outcome_bind, outcome_get, outcome_pure,
        outcome_throw, Prod.mk.injEq, Except.error.injEq, Failure.rejected.injEq] at h
      rw [← h.1]
      rfl
    · simp [hsolve, provenance, unsolvable, outcome_bind, outcome_get, outcome_throw] at h

theorem orderly_solveAt (h : P .mismatch) : Orderly P (solveAt env token) := by
  refine ⟨fun s => ?_, fun s d s' hd => rejects_solveAt hd ▸ h⟩
  -- the store is put back before it is known how solving ended
  have hstore : ((solveAt env token).outcome s).2.store = s.store.solve.2 := by
    simp only [solveAt, outcome_bind, outcome_get, outcome_modify]
    rcases s.store.solve with ⟨_ | _, store⟩ <;> rfl
  rw [hstore]
  exact (EquationStore.solve_outcome s.store).extends_table

variable (hP : ∀ c ∈ Code.known, c ≠ .internal → P c)
include hP

theorem orderly_definitionEscape (symbol : SymbolId) (result : Ty) (forbidden : RegionSet)
    (body : Tree) :
    Orderly P (definitionEscape env token symbol result forbidden body) := by
  dsimp only [definitionEscape]
  refine (orderly_solveAt (hP _ (by decide) nofun)).bind fun _ => orderly_table.bind fun _ =>
    (orderly_orFault _).bind fun _ => orderly_ite (orderly_pure ()) ?_
  exact (orderly_explainEach _ body).bind fun _ =>
    orderly_reject (hP .definitionEscape (by decide) nofun)

theorem orderly_handlerEscape (handlers : List Handler) (type : Ty) (bound : RegionSet)
    (body : Tree) :
    Orderly P (handlerEscape env token handlers type bound body) := by
  dsimp only [handlerEscape]
  refine (orderly_solveAt (hP _ (by decide) nofun)).bind fun _ => orderly_table.bind fun _ =>
    (orderly_orFault _).bind fun _ => orderly_ite (orderly_pure ()) ?_
  exact orderly_provenance.bind fun _ => (orderly_handlerTrace token handlers _ body).bind fun _ =>
    orderly_reject (hP .handlerEscape (by decide) nofun)

theorem orderly_matchSlot (slot : Option Term) (reg : RegionSet) (body : Tree) :
    Orderly P (matchSlot env token slot reg body) := by
  cases slot with
  | none => exact orderly_pure ()
  | some term =>
    refine orderly_table.bind fun _ => (orderly_orFault _).bind fun seen => ?_
    cases seen with
    | set expected =>
      refine orderly_ite (orderly_pure ()) (orderly_provenance.bind fun _ => ?_)
      exact (orderly_explainEach _ body).bind fun _ =>
        orderly_reject (hP .notAllowed (by decide) nofun)
    | var v =>
      refine (orderly_equate ?_).bind fun _ => orderly_solveAt (hP _ (by decide) nofun)
      exact fun _ => rfl

theorem orderly_instantiate (sig : CallSignature) (regs : List RegionSet) (type : Ty) :
    Orderly P (instantiate env token sig regs type) := by
  unfold instantiate
  refine orderly_ite (orderly_pure ())
    (orderly_table.bind fun _ => (orderly_orFault _).bind fun _ => ?_)
  refine (orderly_equate ?_).bind fun _ => orderly_solveAt (hP _ (by decide) nofun)
  exact fun _ => rfl

/-- Settling a node never reports a broken invariant. -/
theorem orderly_settle (regs : List RegionSet) (reg : RegionSet) (t : Tree) :
    Orderly P (settle env regs reg t) := by
  cases t with
  | function info symbol params blocks result body =>
    exact (orderly_definitionEscape hP symbol result _ body).bind fun _ => orderly_annotate _
  | lambda info symbol params blocks result slot body =>
    exact (orderly_matchSlot hP slot reg body).bind fun _ =>
      (orderly_definitionEscape hP symbol result _ body).bind fun _ => orderly_annotate _
  | handle info body handlers type => exact orderly_handlerEscape hP handlers type _ body
  | binding info symbol type init =>
    exact (orderly_solveAt (hP _ (by decide) nofun)).bind fun _ => orderly_table.bind fun _ =>
      (orderly_orFault _).bind fun _ => orderly_annotate _
  | call info callee args blockArgs type =>
    simp only [settle]
    cases calleeSignature env callee with
    | none => exact orderly_pure ()
    | some sig => exact orderly_instantiate hP sig _ type
  | _ => exact orderly_pure ()

end

/-! ## Recording a node and checking a tree -/

section
variable {env : CheckEnv} {scope : Scope} {info : Anchor} {reg : RegionSet}

/-- A node whose regions are bound around it is not rejected when it is recorded. -/
theorem not_rejects_record (h : ∀ r ∈ reg, r ∈ scope.lexical) :
    ¬ Rejects (record env scope info reg) s d s' :=
  Yields.not_rejects (yields_record.2 ⟨fun _ => h, rfl, rfl⟩)

theorem orderly_tasks_of_nodes {ts : List Task}
    (h : ∀ c ∈ ts, ∀ scope, Orderly P (node env scope c.tree)) :
    Orderly P (tasks env scope ts) := by
  induction ts with
  | nil => exact orderly_pure []
  | cons c ts ih =>
    refine (orderly_annotate _).bind fun _ => (h c List.mem_cons_self scope).bind fun _ => ?_
    exact (ih fun d hd => h d (List.mem_cons_of_mem c hd)).bind fun _ => orderly_pure _

variable (hP : ∀ c ∈ Code.known, P c)
include hP

theorem orderly_record : Orderly P (record env scope info reg) := by
  have hmark : Orderly P (do
      modify fun s : CheckState =>
        { s with annotations := s.annotations.annotateNode info.id reg, nodes := s.nodes + 1 }
      return reg : Check RegionSet) := by
    refine (orderly_modify ?_).bind fun _ => orderly_pure reg
    exact fun _ => .refl _
  unfold record
  cases env.options.verifyScopes with
  | true =>
    refine (orderly_ite (orderly_pure ()) (orderly_provenance.bind fun _ => ?_)).bind fun _ => hmark
    exact orderly_reject (hP .internal (by decide))
  | false => exact hmark

theorem orderly_leave (regs : List RegionSet) (t : Tree) : Orderly P (leave env scope regs t) :=
  (orderly_annotate _).bind fun _ => orderly_get.bind fun _ =>
    (orderly_settle (fun c hc _ => hP c hc) regs _ t).bind fun _ => orderly_record hP

/-- However the check of a tree ends, it has lost no knowledge, and the code it rejects with is a
known one. -/
theorem orderly_node (t : Tree) : Orderly P (node env scope t) := by
  induction t using Tree.induction_on_tasks generalizing scope with
  | step t ih =>
    cases hhole : t.isHole with
    | true =>
      rw [Tree.eq_hole hhole, show node env scope .hole = pure ∅ by rw [node]]
      exact orderly_pure ∅
    | false =>
      rw [node_eq env scope hhole]
      exact (orderly_annotate _).bind fun _ =>
        (orderly_tasks_of_nodes fun c hc scope => ih c hc).bind fun regs => orderly_leave hP regs t

theorem orderly_tasks (ts : List Task) : Orderly P (tasks env scope ts) :=
  orderly_tasks_of_nodes fun _ _ _ => orderly_node hP _

end

end Check

open Check in
/-- A rejected unit was rejected while its tree was checked, or because what was left could not be
solved. -/
theorem Module.check_eq_rejected {symbols : SymbolTable} {options : Options} {table F : Table}
    {m : Module} {d : Diagnostic} (h : check symbols options table m = (.error (.rejected d), F)) :
    ∃ s, F = s.store.table ∧ (Rejects (node (m.env symbols options) {} m.tree) (m.start table) d s ∨
      ∃ reg s₁, Yields (node (m.env symbols options) {} m.tree) (m.start table) reg s₁ ∧
        Rejects (solveAt (m.env symbols options) m.info.token) s₁ d s) := by
  rw [check_eq] at h
  rcases hout : outcome (whole (m.env symbols options) m) (m.start table) with ⟨e | _, s⟩
  · rw [hout] at h
    simp only [Except.map, Prod.mk.injEq, Except.error.injEq] at h
    obtain ⟨rfl, rfl⟩ := h
    exact ⟨s, rfl, rejects_bind.1 hout⟩
  · rw [hout] at h
    simp [Except.map] at h

end RegionCapture
