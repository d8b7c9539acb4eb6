import RegionCapture.Proofs.Escape
import RegionCapture.Proofs.Faultless
import RegionCapture.Proofs.ListedTypes

/-!
# Where rejections come from

Between any two nodes the equations of a run are at rest: all that is pending are equations between
two different open variables (`Check.Resting`). Solving them again cannot fail, and neither can it
after an open slot is given the regions of its function value, so contradictions come from calls
only. So if the types of a unit can be read, its check ends with a report or with a diagnostic that
a node of the right kind accounts for (`Check.RaisedAt`), and never in a fault
(`Module.WellTyped.check_located`).

A log that takes debug messages breaks this: the check of an accepted unit then makes a listing,
which stops at a type with an absent parameter. Main statement `Module.failures_located_iff`:
nothing else stands in the way, and a log changes nothing else.
-/

namespace RegionCapture

/-- The kind of a node that is there. -/
def Tree.kind? (t : Tree) : Option Tree.Kind := t.head?.map Prod.fst

/-- The diagnostic has the given code and place, and nothing lies behind it. -/
structure Diagnostic.Plain (d : Diagnostic) (code : Code) (token : Token) : Prop where
  code_eq : d.code = code
  token_eq : d.token = token
  cause_eq : d.cause = none

/-- The diagnostic says at the given place that two sets differ. -/
structure Diagnostic.Clash (d : Diagnostic) (token : Token) : Prop where
  code_eq : d.code = .mismatch
  token_eq : d.token = token
  cause_eq : ∃ l r, d.cause = some (.solving (.mismatch l r))

namespace Check

/-- The node accounts for the diagnostic: two sets differ at a call, a function value with a slot
captures too much, a definition or a handler lets something escape, or a scope is not as it should
be, which only a verifying check finds. -/
inductive RaisedAt (options : Options) (d : Diagnostic) (n : Tree) : Prop
  | call (kind : n.kind? = some .call) (clash : d.Clash n.token)
  | closure (slot : ∃ term, n.slot? = some term) (plain : d.Plain .notAllowed n.token)
  | definition (kind : n.kind? = some .function ∨ n.kind? = some .lambda)
    (plain : d.Plain .definitionEscape n.token)
  | handler (kind : n.kind? = some .handle) (plain : d.Plain .handlerEscape n.token)
  | scope (verifies : options.verifyScopes = true) (plain : d.Plain .internal n.token)

theorem RaisedAt.of_mismatch {options : Options} {d : Diagnostic} {n : Tree}
    (h : RaisedAt options d n) (hcode : d.code = .mismatch) :
    n.kind? = some .call ∧ d.Clash n.token := by
  cases h with
  | call kind clash => exact ⟨kind, clash⟩
  | closure _ plain => cases plain.code_eq.symm.trans hcode
  | definition _ plain => cases plain.code_eq.symm.trans hcode
  | handler _ plain => cases plain.code_eq.symm.trans hcode
  | scope _ plain => cases plain.code_eq.symm.trans hcode

theorem RaisedAt.of_internal {options : Options} {d : Diagnostic} {n : Tree}
    (h : RaisedAt options d n) (hcode : d.code = .internal) :
    options.verifyScopes = true ∧ d.Plain .internal n.token := by
  cases h with
  | call _ clash => cases clash.code_eq.symm.trans hcode
  | closure _ plain => cases plain.code_eq.symm.trans hcode
  | definition _ plain => cases plain.code_eq.symm.trans hcode
  | handler _ plain => cases plain.code_eq.symm.trans hcode
  | scope verifies plain => exact ⟨verifies, plain⟩

/-- What the annotations made so far say about provenance, in a given state. -/
def provenanceIn (env : CheckEnv) (s : CheckState) : Provenance where
  symbols := env.symbols
  annotations := s.annotations
  table := s.store.table
  maxDepth := env.options.explain.maxDepth

/-- A function value with the given regions is refused: its slot is known and lacks some of them.
The diagnostic names those, and if explanations are wanted it explains one after the other. -/
structure Refused (env : CheckEnv) (token : Token) (term : Term) (reg : RegionSet) (body : Tree)
    (s : CheckState) (d : Diagnostic) (expected : RegionSet) : Prop where
  knows : s.store.table.Knows term expected
  exceeds : ∃ r ∈ reg, r ∉ expected
  diagnostic : d = { Diagnostic.make .notAllowed token .notAllowed
    [(provenanceIn env s).describe (reg \ expected)] with trace := d.trace }
  explained : env.options.explains = true →
    (provenanceIn env s).explainEach body (reg \ expected) = .ok d.trace

variable {α β : Type} {x : Check α} {f : α → Check β} {s s' : CheckState} {d : Diagnostic}
  {env : CheckEnv} {token : Token} {type : Ty} {body : Tree} {reg forbidden : RegionSet} {u : Unit}

theorem Refused.plain {term : Term} {expected : RegionSet}
    (h : Refused env token term reg body s d expected) :
    d.Plain .notAllowed token :=
  ⟨congrArg Diagnostic.code h.diagnostic, congrArg Diagnostic.token h.diagnostic,
    congrArg Diagnostic.cause h.diagnostic⟩

/-! ## Steps that only read -/

/-- The step changes nothing and does not reject. -/
def Reads (x : Check α) : Prop :=
  ∀ s, (x.outcome s).2 = s ∧ ∀ d, (x.outcome s).1 ≠ .error (.rejected d)

theorem reads_pure (a : α) : Reads (pure a : Check α) := fun _ => ⟨rfl, nofun⟩

theorem reads_orFault (r : Except Fault α) : Reads (orFault r) := by
  intro s
  cases r with
  | ok a => exact reads_pure a s
  | error f => exact ⟨rfl, fun d h => by cases h⟩

theorem reads_table : Reads table := fun _ => ⟨rfl, fun d h => by cases h⟩

theorem reads_provenance : Reads (provenance env) := fun _ => ⟨rfl, fun d h => by cases h⟩

theorem Reads.bind (hx : Reads x) (hf : ∀ a, Reads (f a)) : Reads (x >>= f) := by
  intro s
  have hfirst := hx s
  rw [outcome_bind]
  rcases hout : x.outcome s with ⟨e | a, s₁⟩
  · rw [hout] at hfirst
    exact ⟨hfirst.1, fun d hd => hfirst.2 d (by simpa using hd)⟩
  · rw [hout] at hfirst
    obtain rfl : s₁ = s := hfirst.1
    exact hf a s₁

theorem reads_ite {p : Prop} [Decidable p] {x y : Check α} (hx : Reads x) (hy : Reads y) :
    Reads (if p then x else y) := by
  split
  · exact hx
  · exact hy

theorem reads_mapM {g : β → Check α} (h : ∀ b, Reads (g b)) (bs : List β) : Reads (bs.mapM g) := by
  induction bs with
  | nil => exact reads_pure []
  | cons b bs ih =>
    rw [List.mapM_cons]
    exact (h b).bind fun a => ih.bind fun as => reads_pure (a :: as)

theorem reads_explainEach (rs : RegionSet) (root : Tree) : Reads (explainEach env rs root) :=
  reads_ite (reads_provenance.bind fun _ => reads_orFault _) (reads_pure [])

theorem reads_handlerTrace (handlers : List Handler) (leaked : RegionSet) :
    Reads (handlerTrace env token handlers leaked body) := by
  unfold handlerTrace
  refine reads_ite (reads_provenance.bind fun p => ?_) (reads_pure [])
  exact (reads_mapM (fun _ => (reads_orFault _).bind fun _ => reads_pure _) _).bind fun _ =>
    reads_pure _

/-- What is rejected after reading is rejected in the state that was read. -/
theorem Reads.rejects_bind (hx : Reads x) (h : Rejects (x >>= f) s d s') :
    ∃ a, Yields x s a s ∧ Rejects (f a) s d s' := by
  rcases Check.rejects_bind.1 h with hfirst | ⟨a, s₁, hyields, hrest⟩
  · exact absurd (congrArg Prod.fst hfirst) ((hx s).2 d)
  · obtain rfl : s₁ = s := by
      have hstate := (hx s).1
      rwa [show x.outcome s = (.ok a, s₁) from hyields] at hstate
    exact ⟨a, hyields, hrest⟩

theorem rejects_reject {e : Diagnostic} (h : Rejects (reject e : Check α) s d s') :
    d = e ∧ s' = s := by
  cases h
  exact ⟨rfl, rfl⟩

/-! ## What each step rejects -/

theorem clash_of_rejects_solveAt (h : Rejects (solveAt env token) s d s') :
    d.Clash token ∧ s' = { s with store := s.store.solve.2 } := by
  rw [Rejects, outcome_solveAt] at h
  obtain ⟨hout, rfl⟩ := Prod.mk.inj h
  refine ⟨?_, rfl⟩
  cases hsolve : s.store.solve.1 with
  | ok => simp [hsolve] at hout
  | error e =>
    rw [hsolve] at hout
    rcases (EquationStore.solve_outcome s.store).stops e hsolve with ⟨l, r, rfl, -⟩ | ⟨⟨f, rfl⟩, -⟩
    · cases hout
      exact ⟨rfl, rfl, l, r, rfl⟩
    · cases hout

/-- An escape is rejected while solving, or because of what the type mentions afterwards. -/
theorem rejects_escape {stop : RegionSet → Check Unit} (h : Rejects (do
      solveAt env token
      let free ← orFault (type.freeRegions (← table))
      unless (free ∩ forbidden).isEmpty do stop free) s d s') :
    Rejects (solveAt env token) s d s' ∨ ∃ s₁ free, Yields (solveAt env token) s () s₁ ∧
      type.freeRegions s₁.store.table = .ok free ∧ Rejects (stop free) s₁ d s' := by
  rcases rejects_bind.1 h with hsolve | ⟨⟨⟩, s₁, hsolve, hrest⟩
  · exact .inl hsolve
  · obtain ⟨_, htable, hrest⟩ := reads_table.rejects_bind hrest
    obtain ⟨rfl, -⟩ := yields_table.1 htable
    obtain ⟨free, hfree, hrest⟩ := (reads_orFault _).rejects_bind hrest
    split at hrest
    · cases hrest
    · exact .inr ⟨s₁, free, hsolve, (yields_orFault.1 hfree).1, hrest⟩

theorem rejects_definitionEscape {symbol : SymbolId}
    (h : Rejects (definitionEscape env token symbol type forbidden body) s d s') :
    Rejects (solveAt env token) s d s' ∨
    (Yields (solveAt env token) s () s' ∧ d.Plain .definitionEscape token) := by
  dsimp only [definitionEscape] at h
  rcases rejects_escape h with hsolve | ⟨s₁, free, hsolve, -, hstop⟩
  · exact .inl hsolve
  · obtain ⟨trace, -, hstop⟩ := (reads_explainEach _ _).rejects_bind hstop
    obtain ⟨rfl, rfl⟩ := rejects_reject hstop
    exact .inr ⟨hsolve, rfl, rfl, rfl⟩

theorem rejects_handlerEscape {handlers : List Handler}
    (h : Rejects (handlerEscape env token handlers type forbidden body) s d s') :
    Rejects (solveAt env token) s d s' ∨
    (Yields (solveAt env token) s () s' ∧ d.Plain .handlerEscape token) := by
  dsimp only [handlerEscape] at h
  rcases rejects_escape h with hsolve | ⟨s₁, free, hsolve, -, hstop⟩
  · exact .inl hsolve
  · obtain ⟨_, -, hstop⟩ := reads_provenance.rejects_bind hstop
    obtain ⟨trace, -, hstop⟩ := (reads_handlerTrace _ _).rejects_bind hstop
    obtain ⟨rfl, rfl⟩ := rejects_reject hstop
    exact .inr ⟨hsolve, rfl, rfl, rfl⟩

theorem yields_explainEach_of_explains {rs : RegionSet} {trace : Trace}
    (h : env.options.explains = true) (hy : Yields (explainEach env rs body) s trace s') :
    (provenanceIn env s).explainEach body rs = .ok trace := by
  rw [explainEach, if_pos h, yields_bind] at hy
  obtain ⟨p, s₁, hread, hexplain⟩ := hy
  cases hread
  exact (yields_orFault.1 hexplain).1

/-- A function value is rejected because its known slot is too small, or while its open slot is
resolved. -/
theorem rejects_matchSlot {slot : Option Term}
    (h : Rejects (matchSlot env token slot reg body) s d s') :
    ∃ term, slot = some term ∧
      (((∃ expected, Refused env token term reg body s d expected) ∧ s' = s) ∨
      ∃ v, s.store.table.Open (.var v) ∧
        Rejects (solveAt env token) { s with store := s.store.add (.var v) (.set reg) } d s') := by
  cases slot with
  | none => cases h
  | some term =>
    refine ⟨term, rfl, ?_⟩
    simp only [matchSlot] at h
    obtain ⟨_, htable, h⟩ := reads_table.rejects_bind h
    obtain ⟨rfl, -⟩ := yields_table.1 htable
    obtain ⟨seen, hseen, h⟩ := (reads_orFault _).rejects_bind h
    cases seen with
    | set expected =>
      dsimp only at h
      split at h
      · cases h
      · next hexceeds =>
        obtain ⟨_, hread, h⟩ := reads_provenance.rejects_bind h
        cases hread
        obtain ⟨trace, hexplain, h⟩ := (reads_explainEach _ _).rejects_bind h
        obtain ⟨rfl, rfl⟩ := rejects_reject h
        refine .inl ⟨⟨expected, Table.knows_of_apply (yields_orFault.1 hseen).1, ?_, rfl,
          fun hexplains => ?_⟩, rfl⟩
        · simpa using hexceeds
        · exact yields_explainEach_of_explains hexplains hexplain
    | var v => exact .inr ⟨v, (Table.open_of_apply (yields_orFault.1 hseen).1).2, h⟩

/-- A call is rejected only while the equations of its slots are solved. -/
theorem rejects_instantiate {sig : CallSignature} {regs : List RegionSet}
    (h : Rejects (instantiate env token sig regs type) s d s') :
    ∃ result, Rejects (solveAt env token) { s with store := s.store.unify type result } d s' := by
  unfold instantiate at h
  split at h
  · cases h
  · obtain ⟨_, -, h⟩ := reads_table.rejects_bind h
    obtain ⟨result, -, h⟩ := (reads_orFault _).rejects_bind h
    exact ⟨result, h⟩

theorem rejects_record {scope : Scope} {info : Anchor}
    (h : Rejects (record env scope info reg) s d s') :
    env.options.verifyScopes = true ∧ d.Plain .internal info.token := by
  unfold record at h
  cases hverify : env.options.verifyScopes with
  | false =>
    rw [hverify] at h
    cases h
  | true =>
    rw [hverify] at h
    rcases rejects_bind.1 h with hscope | ⟨_, _, -, hmark⟩
    · unfold verifyScope at hscope
      split at hscope
      · cases hscope
      · obtain ⟨_, -, hscope⟩ := reads_provenance.rejects_bind hscope
        obtain ⟨rfl, -⟩ := rejects_reject hscope
        exact ⟨rfl, rfl, rfl, rfl⟩
    · cases hmark

/-! ## Equations at rest -/

/-- Only equations between two different open variables are pending. -/
def Resting (s : CheckState) : Prop := ∀ e ∈ s.store.pending, e.isStuck s.store.table = true

theorem Resting.exists_solveAt (h : Resting s) (env : CheckEnv) (token : Token) :
    ∃ s', Yields (solveAt env token) s () s' := by
  have hfrozen : Frozen s.store.table s := ⟨rfl, h⟩
  obtain ⟨s', hsolve, -⟩ := hfrozen.exists_solveAt env token
  exact ⟨s', hsolve⟩

theorem Resting.not_rejects_solveAt (h : Resting s) : ¬ Rejects (solveAt env token) s d s' := by
  obtain ⟨s₁, hsolve⟩ := h.exists_solveAt env token
  exact hsolve.not_rejects

/-- Giving an open variable a set leaves equations that have a solution: every open variable gets
that set. -/
theorem Resting.not_rejects_add (h : Resting s) {v : RegionVar}
    (hopen : s.store.table.Open (.var v)) :
    ¬ Rejects (solveAt env token) { s with store := s.store.add (.var v) (.set reg) } d s' := by
  intro hrejects
  have hsolution : (s.store.add (.var v) (.set reg)).Solution
      (EquationStore.filling s.store.table reg) := by
    have hsolves := EquationStore.filling_solves h reg
    refine ⟨hsolves.agrees, List.forall_mem_append.2 ⟨hsolves.holds,
      List.forall_mem_singleton.2 ?_⟩⟩
    simp [Equation.Holds, Term.under, EquationStore.filling, Table.open_var.1 hopen]
  rw [Rejects, outcome_solveAt] at hrejects
  cases hsolve : (s.store.add (.var v) (.set reg)).solve.1 with
  | ok => simp [hsolve] at hrejects
  | error e =>
    rcases (EquationStore.solve_outcome _).stops e hsolve with ⟨l, r, -, hno⟩ | ⟨⟨f, rfl⟩, -⟩
    · exact hno _ hsolution
    · simp [hsolve, unsolvable] at hrejects

theorem resting_solveAt (h : Yields (solveAt env token) s u s') : Resting s' := by
  obtain ⟨store, hsolve, rfl⟩ := yields_solveAt.1 h
  exact (EquationStore.solvedTo_solve hsolve).stuck

theorem resting_matchSlot {slot : Option Term} (hs : Resting s)
    (h : Yields (matchSlot env token slot reg body) s u s') : Resting s' := by
  cases slot with
  | none => exact yields_matchSlot_none.1 h ▸ hs
  | some term =>
    rcases (covers_of_yields_matchSlot h).knows_or_open with ⟨expected, hknows⟩ | hopen
    · exact ((yields_matchSlot_of_knows hknows).1 h).2 ▸ hs
    · obtain ⟨v, rfl, -⟩ := hopen.eq_var
      exact resting_solveAt ((yields_matchSlot_of_open hopen).1 h)

theorem resting_instantiate {sig : CallSignature} {regs : List RegionSet} (hs : Resting s)
    (h : Yields (instantiate env token sig regs type) s u s') : Resting s' := by
  cases habsent : type.isAbsent || sig.result.isAbsent with
  | true => exact (yields_instantiate_of_absent habsent).1 h ▸ hs
  | false =>
    obtain ⟨result, -, hsolve⟩ := (yields_instantiate habsent).1 h
    exact resting_solveAt hsolve

/-- Whatever a node adds is solved before it is left. -/
theorem resting_settle {t : Tree} {regs : List RegionSet} (hs : Resting s)
    (h : Yields (settle env regs reg t) s u s') : Resting s' := by
  cases t with
  | function =>
    obtain ⟨s₁, hsolve, -, rfl⟩ := yields_settle_function.1 h
    have hrest : Resting s₁ := resting_solveAt hsolve
    exact hrest
  | lambda =>
    obtain ⟨s₁, s₂, -, hsolve, -, rfl⟩ := yields_settle_lambda.1 h
    have hrest : Resting s₂ := resting_solveAt hsolve
    exact hrest
  | handle => exact resting_solveAt (yields_settle_handle.1 h).1
  | binding =>
    obtain ⟨s₁, own, hsolve, -, rfl⟩ := yields_settle_binding.1 h
    have hrest : Resting s₁ := resting_solveAt hsolve
    exact hrest
  | call info callee args blockArgs type =>
    cases hsig : calleeSignature env callee with
    | none => exact (yields_settle_call_of_unknown hsig).1 h ▸ hs
    | some sig => exact resting_instantiate hs ((yields_settle_call hsig).1 h)
  | _ => exact (yields_pure.1 h).2 ▸ hs

theorem resting_leave {scope : Scope} {t : Tree} {regs : List RegionSet} (hs : Resting s)
    (h : Yields (leave env scope regs t) s reg s') : Resting s' := by
  obtain ⟨-, -, s₁, hsettle, rfl⟩ := yields_leave.1 h
  have hrest : Resting s₁ :=
    resting_settle (s := { s with annotations := t.markScope s.annotations }) hs hsettle
  exact hrest

/-! ## Leaving a node -/

theorem Resting.raisedAt_of_settle (options : Options) {t : Tree} {regs : List RegionSet}
    (hs : Resting s) (h : Rejects (settle env regs reg t) s d s') : RaisedAt options d t := by
  cases t with
  | function info symbol params blocks result body =>
    rcases rejects_bind.1 h with hescape | ⟨_, _, -, hannotate⟩
    · rcases rejects_definitionEscape hescape with hsolve | ⟨-, hplain⟩
      · exact absurd hsolve hs.not_rejects_solveAt
      · exact .definition (.inl rfl) hplain
    · exact absurd hannotate not_rejects_modify
  | lambda info symbol params blocks result slot body =>
    rcases rejects_bind.1 h with hmatch | ⟨⟨⟩, s₁, hmatch, h⟩
    · obtain ⟨term, hslot, ⟨⟨expected, hrefused⟩, -⟩ | ⟨v, hopen, hsolve⟩⟩ :=
        rejects_matchSlot hmatch
      · exact .closure ⟨term, hslot⟩ hrefused.plain
      · exact absurd hsolve (hs.not_rejects_add hopen)
    · rcases rejects_bind.1 h with hescape | ⟨_, _, -, hannotate⟩
      · rcases rejects_definitionEscape hescape with hsolve | ⟨-, hplain⟩
        · exact absurd hsolve (resting_matchSlot hs hmatch).not_rejects_solveAt
        · exact .definition (.inr rfl) hplain
      · exact absurd hannotate not_rejects_modify
  | handle info body handlers type =>
    rcases rejects_handlerEscape h with hsolve | ⟨-, hplain⟩
    · exact absurd hsolve hs.not_rejects_solveAt
    · exact .handler rfl hplain
  | binding info symbol type init =>
    rcases rejects_bind.1 h with hsolve | ⟨_, _, -, h⟩
    · exact absurd hsolve hs.not_rejects_solveAt
    · obtain ⟨_, -, h⟩ := reads_table.rejects_bind h
      obtain ⟨_, -, h⟩ := (reads_orFault _).rejects_bind h
      exact absurd h not_rejects_modify
  | call info callee args blockArgs type =>
    simp only [settle] at h
    cases hsig : calleeSignature env callee with
    | none =>
      rw [hsig] at h
      cases h
    | some sig =>
      rw [hsig] at h
      obtain ⟨result, hsolve⟩ := rejects_instantiate h
      exact .call rfl (clash_of_rejects_solveAt hsolve).1
  | _ => cases h

/-- A node is rejected when it is settled, or when it is recorded. -/
theorem rejects_settle_or_record {scope : Scope} {t : Tree} {regs : List RegionSet}
    (h : Rejects (leave env scope regs t) s d s') :
    Rejects (settle env regs (t.region regs (t.markScope s.annotations)) t)
      { s with annotations := t.markScope s.annotations } d s' ∨
    ∃ reg s₁, Rejects (record env scope t.anchor reg) s₁ d s' := by
  rcases rejects_bind.1 h with hmark | ⟨_, s₁, hmark, h⟩
  · exact absurd hmark not_rejects_modify
  · rw [yields_annotate.1 hmark] at h
    rcases rejects_bind.1 h with hget | ⟨_, s₂, hget, h⟩
    · cases hget
    · obtain ⟨rfl, rfl⟩ := yields_get.1 hget
      rcases rejects_bind.1 h with hsettle | ⟨_, s₁, -, hrecord⟩
      · exact .inl hsettle
      · exact .inr ⟨_, s₁, hrecord⟩

/-- A node is rejected because of what it is checked for, or because of its scope. -/
theorem rejects_leave {scope : Scope} {t : Tree} {regs : List RegionSet}
    (h : Rejects (leave env scope regs t) s d s') :
    Rejects (settle env regs (t.region regs (t.markScope s.annotations)) t)
      { s with annotations := t.markScope s.annotations } d s' ∨
    (env.options.verifyScopes = true ∧ d.Plain .internal t.token) := by
  rcases rejects_settle_or_record h with hsettle | ⟨_, _, hrecord⟩
  · exact .inl hsettle
  · exact .inr (rejects_record hrecord)

theorem Resting.raisedAt_of_leave {scope : Scope} {t : Tree} {regs : List RegionSet}
    (hs : Resting s) (h : Rejects (leave env scope regs t) s d s') : RaisedAt env.options d t := by
  rcases rejects_leave h with hsettle | ⟨hverifies, hplain⟩
  · exact Resting.raisedAt_of_settle
      (s := { s with annotations := t.markScope s.annotations }) _ hs hsettle
  · exact .scope hverifies hplain

end Check

/-! ## The check of a unit -/

namespace Module

open Check

variable {symbols : SymbolTable} {options : Options} {table : Table} {m : Module} {p : Arrival}

theorem resting_start (m : Module) (table : Table) : Resting (m.start table) := by
  intro e he
  cases he

theorem covering_start (m : Module) (table : Table) : Covering table (m.start table) :=
  ⟨.refl table, fun e he => by cases he⟩

/-- Wherever the check of a unit comes, the equations are at rest. -/
theorem resting_arrival (hp : Reaches (node (m.env symbols options)) {} m.tree (m.start table) p) :
    Resting p.state :=
  (outline_node _).keeps_arrival (fun hs => hs) (fun hs => hs)
    (fun _ _ _ _ _ _ _ h hs => resting_leave hs h) hp
    (m.resting_start table)

theorem resting_of_yields {reg : RegionSet} {s : CheckState}
    (h : Yields (node (m.env symbols options) {} m.tree) (m.start table) reg s) : Resting s :=
  (outline_node _).keeps (fun hs => hs) (fun hs => hs)
    (fun _ _ _ _ _ _ _ h hs => resting_leave hs h) h
    (m.resting_start table)

section
variable {guard : Check Unit → Check Unit} (h : m.WellTyped table)
  (hguard : ∀ x, Safe table x → Safe table (guard x))
include h hguard

theorem WellTyped.safe_settle (symbols : SymbolTable) (options : Options) {n : Tree}
    (hn : n ∈ m.tree.nodes) (regs : List RegionSet) (reg : RegionSet) :
    Safe table (settleBy guard (m.env symbols options) regs reg n) :=
  safe_settleBy hguard (fun _ _ hsig => h _ (result_mem_types hsig))
    (h.legible.of_mem_nodes hn) regs reg

theorem WellTyped.safe_leave (symbols : SymbolTable) (options : Options) {n : Tree}
    (hn : n ∈ m.tree.nodes) (scope : Scope) (regs : List RegionSet) :
    Safe table (leaveBy guard (m.env symbols options) scope regs n) :=
  safe_leaveBy hguard (fun _ _ hsig => h _ (result_mem_types hsig))
    (h.legible.of_mem_nodes hn) scope regs

theorem WellTyped.covering_leave {n : Tree} (hn : n ∈ m.tree.nodes) {scope : Scope}
    {regs : List RegionSet} {s s' : CheckState} {reg : RegionSet}
    (hleave : Yields (leaveBy guard (m.env symbols options) scope regs n) s reg s')
    (hs : Covering table s) : Covering table s' := by
  have hkeeps := (h.safe_leave hguard symbols options hn scope regs).keeps s hs
  rwa [show (leaveBy guard (m.env symbols options) scope regs n).outcome s = (.ok reg, s')
    from hleave] at hkeeps

/-- Wherever a guarded traversal of a well-typed unit comes, the equations are between variables of
the table. -/
theorem WellTyped.covering_arrival
    (hp : Reaches (traverse guard (m.env symbols options)) {} m.tree (m.start table) p) :
    Covering table p.state :=
  (outline_traverse guard _).keeps_arrival (fun hs => ⟨hs.extends_table, hs.covered⟩)
    (fun hs => ⟨hs.extends_table, hs.covered⟩) (fun _ hn _ _ _ _ _ => h.covering_leave hguard hn) hp
    (m.covering_start table)

theorem WellTyped.covering_of_yields {reg : RegionSet} {s : CheckState}
    (hs : Yields (traverse guard (m.env symbols options) {} m.tree) (m.start table) reg s) :
    Covering table s :=
  (outline_traverse guard _).keeps (fun hs => ⟨hs.extends_table, hs.covered⟩)
    (fun hs => ⟨hs.extends_table, hs.covered⟩) (fun _ hn _ _ _ _ _ => h.covering_leave hguard hn) hs
    (m.covering_start table)

/-- A guarded traversal of a well-typed unit never ends in a fault. -/
theorem WellTyped.traverse_ne_fault {f : Fault} {s : CheckState} :
    (traverse guard (m.env symbols options) {} m.tree).outcome (m.start table) ≠
      (.error (.fault f), s) := by
  intro hfault
  obtain ⟨p, hp, hleave⟩ := (outline_traverse guard _).exists_failing hfault
  have hsafe := h.safe_leave hguard symbols options hp.mem_nodes p.scope p.regs
  exact hsafe.faultless p.state (h.covering_arrival hguard hp) f (by rw [hleave])

end

theorem WellTyped.settle_ne_fault (h : m.WellTyped table)
    (hp : Reaches (node (m.env symbols options)) {} m.tree (m.start table) p) (f : Fault) :
    ((settle (m.env symbols options) p.regs p.region p.node).outcome p.marked).1 ≠
      .error (.fault f) := by
  rw [← traverse_id] at hp
  have hcovering := h.covering_arrival (fun _ hx => hx) hp
  have hsafe := h.safe_settle (fun _ hx => hx) symbols options hp.mem_nodes p.regs p.region
  rw [settleBy_id] at hsafe
  exact hsafe.faultless p.marked ⟨hcovering.extends_table, hcovering.covered⟩ f

/-- The check of a well-typed unit never ends in a fault. -/
theorem WellTyped.check_ne_fault (h : m.WellTyped table) (f : Fault) :
    (check symbols options table m).1 ≠ .error (.fault f) := by
  rw [check_eq, whole, outcome_bind]
  rcases hnode : (node (m.env symbols options) {} m.tree).outcome (m.start table) with ⟨e | reg, s⟩
  · intro hfault
    cases hfault
    rw [← traverse_id] at hnode
    exact h.traverse_ne_fault (fun _ hx => hx) hnode
  · obtain ⟨final, hsolve⟩ :=
      (resting_of_yields hnode).exists_solveAt (m.env symbols options) m.info.token
    rw [Yields] at hsolve
    simp only [hsolve]
    intro hfault
    cases hfault

/-- Leaving a node other than a call, a run never fails to solve its equations. -/
theorem WellTyped.settle_ne_unsolvable (h : m.WellTyped table)
    (hp : Reaches (node (m.env symbols options)) {} m.tree (m.start table) p)
    (hkind : p.node.kind? ≠ some .call) (q : Provenance) (token : Token) (e : SolveError) :
    ((settle (m.env symbols options) p.regs p.region p.node).outcome p.marked).1 ≠
      .error (unsolvable q token e) := by
  intro hout
  have hresting : Resting p.marked := resting_arrival hp
  have hraised : ∀ d, unsolvable q token e = .rejected d → RaisedAt options d p.node := fun d hd =>
    hresting.raisedAt_of_settle options (Prod.ext (hd ▸ hout) rfl)
  cases e with
  | fault f => exact h.settle_ne_fault hp f hout
  | mismatch l r => exact hkind ((hraised _ rfl).of_mismatch rfl).1
  | alreadyResolved v current wanted => cases ((hraised _ rfl).of_internal rfl).2.cause_eq

/-- If the types of a unit can be read, its check ends with a report, or with a diagnostic that one
of its nodes accounts for. -/
theorem WellTyped.check_located (h : m.WellTyped table) (symbols : SymbolTable)
    (options : Options) :
    (∃ report, (check symbols options table m).1 = .ok report) ∨
      ∃ d, (check symbols options table m).1 = .error (.rejected d) ∧
        ∃ n ∈ m.tree.nodes, RaisedAt options d n := by
  rcases hnode : (node (m.env symbols options) {} m.tree).outcome (m.start table) with ⟨e | reg, s⟩
  · right
    have hcheck : (check symbols options table m).1 = .error e := by
      rw [check_eq, whole, outcome_bind, hnode]
      rfl
    cases e with
    | fault f =>
      rw [← traverse_id] at hnode
      exact absurd hnode (h.traverse_ne_fault fun _ hx => hx)
    | rejected d =>
      obtain ⟨p, hp, hleave⟩ := (outline_node _).exists_failing hnode
      exact ⟨d, hcheck, p.node, hp.mem_nodes, (resting_arrival hp).raisedAt_of_leave hleave⟩
  · left
    obtain ⟨final, hsolve⟩ :=
      (resting_of_yields hnode).exists_solveAt (m.env symbols options) m.info.token
    have hcheck := check_eq_ok.2 ⟨reg, s, final, hnode, hsolve, rfl, rfl⟩
    exact ⟨final.report, congrArg Prod.fst hcheck⟩

/-! ## The check under a log -/

theorem checkLogged_false (symbols : SymbolTable) (options : Options) (table : Table) (m : Module) :
    checkLogged false symbols options table m = check symbols options table m := by
  unfold checkLogged
  rcases check symbols options table m with ⟨e | report, final⟩ <;> rfl

/-- An accepted unit is listed before its report is given. -/
theorem checkLogged_true_of_ok {report : CheckReport} {final : Table}
    (h : check symbols options table m = (.ok report, final)) :
    checkLogged true symbols options table m =
      ((report.listing symbols m).mapError Failure.fault >>= fun _ => .ok report, final) := by
  unfold checkLogged
  rw [h]
  show (discard ((report.listing symbols m).mapError Failure.fault) >>= fun _ => .ok report,
    final) = _
  cases report.listing symbols m <;> rfl

/-- Under a log the check ends as it would without one, unless the listing of an accepted unit
cannot be made. -/
theorem checkLogged_cases (debug : Bool) (symbols : SymbolTable) (options : Options) (table : Table)
    (m : Module) :
    (checkLogged debug symbols options table m = check symbols options table m ∧
      (debug = true → (∃ report, (check symbols options table m).1 = .ok report) →
        m.tree.Showable)) ∨
    (checkLogged debug symbols options table m =
      (.error (.fault .absentPart), (check symbols options table m).2) ∧
      debug = true ∧ (∃ report, (check symbols options table m).1 = .ok report) ∧
      ¬ m.tree.Showable) := by
  cases debug with
  | false => exact .inl ⟨checkLogged_false symbols options table m, nofun⟩
  | true =>
    rcases hcheck : check symbols options table m with ⟨e | report, final⟩
    · refine .inl ⟨?_, fun _ ⟨_, hok⟩ => by cases hok⟩
      unfold checkLogged
      rw [hcheck]
      rfl
    · rw [checkLogged_true_of_ok hcheck, CheckReport.listing]
      rcases Listing.needs_text { symbols, annotations := some report.annotations } m.tree with
        ⟨hshowable, text, htext⟩ | ⟨hshowable, htext⟩
      · rw [htext]
        exact .inl ⟨rfl, fun _ _ => hshowable⟩
      · rw [htext]
        exact .inr ⟨rfl, rfl, ⟨report, rfl⟩, hshowable⟩

/-- If the types of a unit can be read, its check ends with a report, or with a diagnostic that one
of its nodes accounts for, exactly unless the log takes debug messages, the unit is accepted and a
type in its listing is not complete; then it ends in a fault. A log changes nothing else. Away from
calls solving never fails, neither when a node is left nor in the end. -/
theorem failures_located_iff (h : m.WellTyped table) (debug : Bool) :
    (((∃ report, (checkLogged debug symbols options table m).1 = .ok report) ∨
      ∃ d, (checkLogged debug symbols options table m).1 = .error (.rejected d) ∧
        ∃ n ∈ m.tree.nodes, RaisedAt options d n) ↔
      (debug = true → (∃ report, (checkLogged false symbols options table m).1 = .ok report) →
        ∀ n ∈ m.tree.nodes, ∀ type ∈ n.shownTypes, type.isAbsent = false → type.Complete)) ∧
    (checkLogged debug symbols options table m = checkLogged false symbols options table m ∨
      checkLogged debug symbols options table m =
        (.error (.fault .absentPart), (checkLogged false symbols options table m).2)) ∧
    (∀ p, Reaches (node (m.env symbols options)) {} m.tree (m.start table) p →
      p.node.kind? ≠ some .call →
      ∀ q token e, ((settle (m.env symbols options) p.regs p.region p.node).outcome p.marked).1 ≠
        .error (unsolvable q token e)) ∧
    ∀ reg s, Yields (node (m.env symbols options) {} m.tree) (m.start table) reg s →
      ∃ s', Yields (solveAt (m.env symbols options) m.info.token) s () s' := by
  have hcomplete : m.tree.Showable ↔
      ∀ n ∈ m.tree.nodes, ∀ type ∈ n.shownTypes, type.isAbsent = false → type.Complete :=
    Tree.showable_iff_complete
  rw [checkLogged_false, ← hcomplete]
  refine ⟨?_, ?_, fun p hp hkind => h.settle_ne_unsolvable hp hkind,
    fun reg s hs => (resting_of_yields hs).exists_solveAt _ _⟩
  · rcases checkLogged_cases debug symbols options table m with ⟨heq, hshowable⟩ |
      ⟨heq, hdebug, hok, hshowable⟩
    · rw [heq]
      exact iff_of_true (h.check_located symbols options) hshowable
    · rw [heq]
      refine iff_of_false ?_ fun hall => hshowable (hall hdebug hok)
      rintro (⟨report, hreport⟩ | ⟨d, hd, -⟩)
      · cases hreport
      · cases hd
  · exact (checkLogged_cases debug symbols options table m).imp And.left And.left

/-- A function that returns a closure over nothing, with an open slot, and a caller that expects one
over region seven. -/
def clashing : Module where
  info := ⟨7, {}⟩
  name := "unit"
  defs :=
    [.function ⟨3, {}⟩ 1 [] [] (.fn [] [] (.con "Int" "") (some (.var 1)))
      (.lambda ⟨2, {}⟩ 2 [] [] (.con "Int" "") (some (.var 1)) (.literal ⟨1, {}⟩ "0")),
     .function ⟨6, {}⟩ 3 [] [] .absent
      (.call ⟨5, { line := 2 }⟩ (.ref ⟨4, {}⟩ 1) [] []
        (.fn [] [] (.con "Int" "") (some (.set (.singleton 7)))))]
  imports := []

theorem wellTyped_clashing : clashing.WellTyped ⟨[none]⟩ := by
  have hopen : Table.Covers ⟨[none]⟩ (.var 1) := ⟨none, rfl⟩
  have hset : Table.Covers ⟨[none]⟩ (.set (.singleton 7)) := Table.covers_set
  intro type htype
  have hmem : type ∈ [Ty.fn [] [] (.con "Int" "") (some (.var 1)),
      .fn [] [] (.con "Int" "") (some (.var 1)), .absent,
      .fn [] [] (.con "Int" "") (some (.set (.singleton 7)))] := htype
  simp only [List.mem_cons, List.not_mem_nil, or_false] at hmem
  rcases hmem with rfl | rfl | rfl | rfl <;>
    exact ⟨by simp [Ty.EverySlot, Ty.EverySlots, hopen, hset], by simp [Ty.Whole]⟩

/-- The open slot is resolved without a failure, and the contradiction is reported at the call. -/
theorem failures_located_iff_clashing : clashing.WellTyped ⟨[none]⟩ ∧
    ∃ d, (checkLogged true {} {} ⟨[none]⟩ clashing).1 = .error (.rejected d) ∧ d.code = .mismatch ∧
      ∃ n ∈ clashing.tree.nodes, n.kind? = some .call ∧ d.token = n.token := by
  refine ⟨wellTyped_clashing, ?_⟩
  have hcode : ∀ debug, (match (checkLogged debug {} {} ⟨[none]⟩ clashing).1 with
      | .error (.rejected d) => some d.code
      | .error (.fault _) => none
      | .ok _ => none) = some .mismatch := by decide +kernel
  have hrejected : ∀ debug report, (checkLogged debug {} {} ⟨[none]⟩ clashing).1 ≠ .ok report := by
    intro debug report hok
    have hcode := hcode debug
    rw [hok] at hcode
    cases hcode
  have hlocated := (failures_located_iff wellTyped_clashing true).1.2
    fun _ ⟨report, hok⟩ => absurd hok (hrejected false report)
  rcases hlocated with ⟨report, hok⟩ | ⟨d, hd, n, hn, hraised⟩
  · exact absurd hok (hrejected true report)
  · have hcode := hcode true
    rw [hd] at hcode
    obtain ⟨hkind, hclash⟩ := hraised.of_mismatch (Option.some.inj hcode)
    exact ⟨d, hd, hclash.code_eq, n, hn, hkind, hclash.token_eq⟩

/-- A function whose result type has an absent parameter. -/
def takesAbsent : Module where
  info := ⟨3, {}⟩
  name := "unit"
  defs := [.function ⟨2, {}⟩ 1 [] [] (.fn [.absent] [] (.con "Int" "") none) (.literal ⟨1, {}⟩ "0")]
  imports := []

/-- The types can be read and the unit is accepted, but a log that takes debug messages stops it. -/
theorem listing_stops_takesAbsent : takesAbsent.WellTyped {} ∧
    (∃ report, (checkLogged false {} {} {} takesAbsent).1 = .ok report) ∧
    (checkLogged true {} {} {} takesAbsent).1 = .error (.fault .absentPart) := by
  have htypes : takesAbsent.WellTyped {} := by
    intro type htype
    have hmem : type ∈ [Ty.fn [.absent] [] (.con "Int" "") none] := htype
    rw [List.mem_singleton.1 hmem]
    exact ⟨by simp [Ty.EverySlot, Ty.EverySlots], by simp [Ty.Whole]⟩
  obtain ⟨report, hcheck, -⟩ := exists_report (f := fun _ => ()) (x := ()) (F := {})
    (show (check {} {} {} takesAbsent).1.toOption.map _ = _ by decide +kernel)
    (by decide +kernel)
  have hok : (check {} {} {} takesAbsent).1 = .ok report := congrArg Prod.fst hcheck
  refine ⟨htypes, ⟨report, by rw [checkLogged_false, hok]⟩, ?_⟩
  rcases checkLogged_cases true {} {} {} takesAbsent with ⟨-, hshowable⟩ | ⟨hstops, -⟩
  · have hcomplete := Tree.showable_iff_complete.1 (hshowable rfl ⟨report, hok⟩)
      (.function ⟨2, {}⟩ 1 [] [] (.fn [.absent] [] (.con "Int" "") none) (.literal ⟨1, {}⟩ "0"))
      (List.mem_of_getElem? (i := 1) rfl) _ List.mem_cons_self rfl
    simp [Ty.Complete, Ty.Completes] at hcomplete
  · rw [hstops]

end Module

end RegionCapture
