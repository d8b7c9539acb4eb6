import RegionCapture.Proofs.Inference
import RegionCapture.Proofs.Readable

/-!
# Steps without faults

A fault can come from a variable of another table or from an absent part of a type only. If the
types of a unit can be read over its table and all pending equations are between variables of it
(`Check.Covering`), no step of the traversal ends in a fault, and all of them keep it that way
however they end (`Check.Safe`). Main statement `Check.safe_leaveBy`: this holds of leaving a node,
with whatever guard around its obligations that is safe itself.
-/

namespace RegionCapture

/-- However often it scans, solving leaves no equation pending that was not pending before. -/
theorem EquationStore.mem_of_mem_scans {fuel : Nat} {s : EquationStore} {e : Equation}
    (h : e ∈ (scans fuel s).2.pending) : e ∈ s.pending := by
  induction fuel generalizing s with
  | zero => exact h
  | succ fuel ih =>
    have hkept := (s.table.scan_spec s.pending).kept_sublist.subset
    simp only [scans] at h
    split at h
    · exact h
    · split at h
      · exact h
      · exact hkept h
      · split at h
        · exact hkept h
        · exact hkept (ih h)

theorem EquationStore.mem_of_mem_solve {s : EquationStore} {e : Equation}
    (h : e ∈ s.solve.2.pending) :
    e ∈ s.pending :=
  mem_of_mem_scans (s := { s with
    stats := { s.stats with invocations := s.stats.invocations + 1, lastPasses := 0 } }) h

/-- A term into which what is known can be put belongs to the table. -/
theorem Table.covers_of_apply {t : Table} {term seen : Term}
    (h : t.apply term = .ok seen) : t.Covers term :=
  Classical.byContradiction fun hforeign => by
    obtain ⟨f, hf⟩ := apply_of_not_covers hforeign
    rw [hf] at h
    cases h

/-- A term that is still a variable with what is known put in is an open variable. -/
theorem Table.open_of_apply {t : Table} {term : Term} {v : RegionVar}
    (h : t.apply term = .ok (.var v)) :
    term = .var v ∧ t.Open (.var v) := by
  rcases (covers_of_apply h).knows_or_open with ⟨s, hknows⟩ | hopen
  · rw [apply_of_knows hknows] at h
    cases h
  · obtain ⟨w, rfl, -⟩ := hopen.eq_var
    rw [apply_of_open hopen] at h
    cases h
    exact ⟨rfl, hopen⟩

theorem Table.knows_of_apply {t : Table} {term : Term} {s : RegionSet}
    (h : t.apply term = .ok (.set s)) :
    t.Knows term s := by
  rcases (covers_of_apply h).knows_or_open with ⟨s', hknows⟩ | hopen
  · rw [apply_of_knows hknows] at h
    cases h
    exact hknows
  · obtain ⟨w, rfl, -⟩ := hopen.eq_var
    rw [apply_of_open hopen] at h
    cases h

namespace Check

/-- The table has grown from the given one, and the pending equations are between variables of
it. -/
structure Covering (T : Table) (s : CheckState) : Prop where
  extends_table : T.Extends s.store.table
  covered : ∀ e ∈ s.store.pending, e.Covered T

/-- However it ends, the step keeps the equations covered, and it does not end in a fault. -/
structure Safe {α : Type} (T : Table) (x : Check α) : Prop where
  keeps : ∀ s, Covering T s → Covering T (x.outcome s).2
  faultless : ∀ s, Covering T s → ∀ f, (x.outcome s).1 ≠ .error (.fault f)

variable {α β : Type} {T : Table} {x : Check α} {f : α → Check β} {s s' : CheckState}

/-! ## Safe steps in sequence -/

theorem Safe.bind_of (hx : Safe T x)
    (hf : ∀ s a s', Covering T s → Yields x s a s' → Safe T (f a)) :
    Safe T (x >>= f) := by
  suffices h : ∀ s, Covering T s → Covering T ((x >>= f).outcome s).2 ∧
      ∀ e, ((x >>= f).outcome s).1 ≠ .error (.fault e)
      from ⟨fun s hs => (h s hs).1, fun s hs => (h s hs).2⟩
  intro s hs
  have hkeeps := hx.keeps s hs
  have hfaultless := hx.faultless s hs
  rw [outcome_bind]
  rcases hout : x.outcome s with ⟨e | a, s₁⟩
  · rw [hout] at hkeeps hfaultless
    exact ⟨hkeeps, fun f hf => hfaultless f (by simpa using hf)⟩
  · rw [hout] at hkeeps
    have hrest := hf s a s₁ hs hout
    exact ⟨hrest.keeps s₁ hkeeps, hrest.faultless s₁ hkeeps⟩

theorem Safe.bind (hx : Safe T x) (hf : ∀ a, Safe T (f a)) : Safe T (x >>= f) :=
  hx.bind_of fun _ a _ _ _ => hf a

theorem safe_pure (a : α) : Safe T (pure a : Check α) := ⟨fun _ hs => hs, fun _ _ _ h => by cases h⟩

theorem safe_reject (d : Diagnostic) : Safe T (reject d : Check α) :=
  ⟨fun _ hs => hs, fun _ _ _ h => by cases h⟩

theorem safe_orFault {r : Except Fault α} (h : ∃ a, r = .ok a) : Safe T (orFault r) := by
  obtain ⟨a, rfl⟩ := h
  exact safe_pure a

theorem safe_get : Safe T (get : Check CheckState) := ⟨fun _ hs => hs, fun _ _ _ h => by cases h⟩

theorem safe_modify {g : CheckState → CheckState} (h : ∀ s, Covering T s → Covering T (g s)) :
    Safe T (modify g) :=
  ⟨h, fun _ _ _ h => by cases h⟩

theorem safe_annotate (g : Annotations → Annotations) : Safe T (annotate g) :=
  safe_modify fun _ hs => ⟨hs.extends_table, hs.covered⟩

theorem safe_ite {p : Prop} [Decidable p] {x y : Check α} (hx : Safe T x) (hy : Safe T y) :
    Safe T (if p then x else y) := by
  split
  · exact hx
  · exact hy

theorem safe_mapM {g : β → Check α} (h : ∀ b, Safe T (g b)) (bs : List β) : Safe T (bs.mapM g) := by
  induction bs with
  | nil => exact safe_pure []
  | cons b bs ih =>
    rw [List.mapM_cons]
    exact (h b).bind fun a => ih.bind fun as => safe_pure (a :: as)

/-- What is read from the table is read from one that has grown from the given one. -/
theorem safe_table_bind {f : Table → Check β} (h : ∀ u, T.Extends u → Safe T (f u)) :
    Safe T (table >>= f) := by
  refine Safe.bind_of ⟨fun _ hs => hs, fun _ _ _ h => by cases h⟩ fun s u s' hs hread => ?_
  rw [← (yields_table.1 hread).1]
  exact h _ hs.extends_table

theorem safe_provenance_bind {env : CheckEnv} {f : Provenance → Check β}
    (h : ∀ p : Provenance, T.Extends p.table → Safe T (f p)) : Safe T (provenance env >>= f) := by
  refine Safe.bind_of ⟨fun _ hs => hs, fun _ _ _ h => by cases h⟩ fun s p s' hs hread => ?_
  cases hread
  exact h _ hs.extends_table

theorem safe_equate {g : EquationStore → EquationStore} (es : List Equation)
    (hg : ∀ store, g store = { store with pending := store.pending ++ es })
    (hes : ∀ e ∈ es, e.Covered T) :
    Safe T (equate g) := by
  refine safe_modify fun s hs => ?_
  rw [hg]
  exact ⟨hs.extends_table, List.forall_mem_append.2 ⟨hs.covered, hes⟩⟩

theorem Safe.ignoring {x : Check Unit} (h : Safe T x) : Safe T (ignoring x) := by
  refine ⟨fun s hs => ?_, fun s hs => ?_⟩
  · have hkeeps := h.keeps s hs
    rw [outcome_ignoring]
    rcases hout : x.outcome s with ⟨(d | e) | v, s₁⟩ <;> rwa [hout] at hkeeps
  · have hfaultless := h.faultless s hs
    rw [outcome_ignoring]
    rcases hout : x.outcome s with ⟨(d | e) | v, s₁⟩
    · exact nofun
    · rwa [hout] at hfaultless
    · exact nofun

/-! ## The steps of the traversal -/

section
variable {env : CheckEnv} {token : Token} {body : Tree} {type : Ty}

/-- Solving is over before it is known how it ended. -/
theorem outcome_solveAt (env : CheckEnv) (token : Token) (s : CheckState) :
    (solveAt env token).outcome s =
    (match s.store.solve.1 with
      | .ok _ => .ok ()
      | .error e => .error (unsolvable
          { symbols := env.symbols, annotations := s.annotations, table := s.store.solve.2.table,
            maxDepth := env.options.explain.maxDepth } token e),
     { s with store := s.store.solve.2 }) := by
  simp only [solveAt, outcome_bind, outcome_get, outcome_modify]
  rcases s.store.solve with ⟨_ | _, store⟩ <;> rfl

theorem safe_solveAt : Safe T (solveAt env token) := by
  refine ⟨fun s hs => ?_, fun s hs f hfault => ?_⟩
  · rw [outcome_solveAt]
    refine ⟨hs.extends_table.trans (EquationStore.solve_outcome s.store).extends_table,
      fun e he => hs.covered e ?_⟩
    exact EquationStore.mem_of_mem_solve he
  · rw [outcome_solveAt] at hfault
    cases hsolve : s.store.solve.1 with
    | ok => simp [hsolve] at hfault
    | error e =>
      have hcov : ∀ e ∈ s.store.pending, e.Covered s.store.table := fun e he =>
        ⟨hs.extends_table.covers_iff.2 (hs.covered e he).1,
          hs.extends_table.covers_iff.2 (hs.covered e he).2⟩
      obtain ⟨l, r, rfl⟩ := EquationStore.mismatch_of_covered hcov hsolve
      simp [hsolve, unsolvable] at hfault

theorem safe_explainEach (h : body.Legible T) (rs : RegionSet) : Safe T (explainEach env rs body) :=
  safe_ite (safe_provenance_bind fun _ hp =>
    safe_orFault (Provenance.exists_explainEach (h.mono hp) rs)) (safe_pure [])

theorem safe_handlerTrace (h : body.Legible T) (handlers : List Handler) (leaked : RegionSet) :
    Safe T (handlerTrace env token handlers leaked body) := by
  unfold handlerTrace
  refine safe_ite (safe_provenance_bind fun p hp => ?_) (safe_pure [])
  refine (safe_mapM (fun r => ?_) _).bind fun _ => safe_pure _
  exact (safe_orFault (Provenance.exists_explain (h.mono hp) r)).bind fun _ => safe_pure _

theorem safe_definitionEscape (htype : type.Readable T) (hbody : body.Legible T) (symbol : SymbolId)
    (forbidden : RegionSet) : Safe T (definitionEscape env token symbol type forbidden body) := by
  dsimp only [definitionEscape]
  refine safe_solveAt.bind fun _ => safe_table_bind fun u hu => ?_
  refine (safe_orFault (htype.mono hu).exists_freeRegions).bind fun _ => safe_ite (safe_pure ()) ?_
  exact (safe_explainEach hbody _).bind fun _ => safe_reject _

theorem safe_handlerEscape (htype : type.Readable T) (hbody : body.Legible T)
    (handlers : List Handler) (bound : RegionSet) :
    Safe T (handlerEscape env token handlers type bound body) := by
  dsimp only [handlerEscape]
  refine safe_solveAt.bind fun _ => safe_table_bind fun u hu => ?_
  refine (safe_orFault (htype.mono hu).exists_freeRegions).bind fun _ => safe_ite (safe_pure ()) ?_
  exact safe_provenance_bind fun _ _ => (safe_handlerTrace hbody handlers _).bind fun _ =>
    safe_reject _

theorem safe_matchSlot {slot : Option Term} (hslot : ∀ term, slot = some term → T.Covers term)
    (hbody : body.Legible T) (reg : RegionSet) : Safe T (matchSlot env token slot reg body) := by
  cases slot with
  | none => exact safe_pure ()
  | some term =>
    have hcovers := hslot term rfl
    refine safe_table_bind fun u hu => ?_
    have hseen := Table.apply_of_covers (hu.covers_iff.2 hcovers)
    refine (safe_orFault hseen).bind_of fun _ seen _ _ hread => ?_
    cases seen with
    | set expected =>
      refine safe_ite (safe_pure ()) (safe_provenance_bind fun _ _ => ?_)
      exact (safe_explainEach hbody _).bind fun _ => safe_reject _
    | var v =>
      obtain ⟨rfl, -⟩ := Table.open_of_apply (yields_orFault.1 hread).1
      refine (safe_equate [⟨.var v, .set reg⟩] (fun _ => rfl) ?_).bind fun _ => safe_solveAt
      exact List.forall_mem_singleton.2 ⟨hcovers, Table.covers_set⟩

theorem safe_instantiate {sig : CallSignature} (htype : type.Readable T)
    (hresult : sig.result.Readable T) (regs : List RegionSet) :
    Safe T (instantiate env token sig regs type) := by
  unfold instantiate
  refine safe_ite (safe_pure ()) (safe_table_bind fun u hu => ?_)
  refine (safe_orFault (Ty.exists_subst_of_covers (hresult.mono hu).covered _)).bind_of
    fun _ result _ _ hread => ?_
  refine (safe_equate (type.pairs result) (fun _ => rfl) fun e he => ?_).bind fun _ => safe_solveAt
  have hcovered := (htype.mono hu).covered_pairs (hresult.mono hu) (yields_orFault.1 hread).1 e he
  exact ⟨hu.covers_iff.1 hcovered.1, hu.covers_iff.1 hcovered.2⟩

theorem safe_verifyScope {scope : Scope} {reg : RegionSet} :
    Safe T (verifyScope env scope token reg) :=
  safe_ite (safe_pure ()) (safe_provenance_bind fun _ _ => safe_reject _)

/-! ## Leaving a node -/

variable {guard : Check Unit → Check Unit} (hguard : ∀ x, Safe T x → Safe T (guard x))
include hguard

theorem safe_recordBy (scope : Scope) (info : Anchor) (reg : RegionSet) :
    Safe T (recordBy guard env scope info reg) := by
  have hmark : Safe T (do
      modify fun s : CheckState =>
        { s with annotations := s.annotations.annotateNode info.id reg, nodes := s.nodes + 1 }
      return reg : Check RegionSet) := by
    refine (safe_modify ?_).bind fun _ => safe_pure reg
    exact fun _ hs => ⟨hs.extends_table, hs.covered⟩
  unfold recordBy
  cases env.options.verifyScopes with
  | true => exact (hguard _ safe_verifyScope).bind fun _ => hmark
  | false => exact hmark

variable (hsig : ∀ callee sig, calleeSignature env callee = some sig → sig.result.Readable T)
include hsig

theorem safe_settleBy {t : Tree} (ht : t.Legible T) (regs : List RegionSet) (reg : RegionSet) :
    Safe T (settleBy guard env regs reg t) := by
  cases t with
  | function info symbol params blocks result body =>
    obtain ⟨htypes, hbelow⟩ := (Tree.legible_iff rfl).1 ht
    have hresult : result.Readable T := htypes result List.mem_cons_self
    have hbody : body.Legible T := hbelow body.task List.mem_cons_self
    exact (hguard _ (safe_definitionEscape hresult hbody symbol _)).bind fun _ => safe_annotate _
  | lambda info symbol params blocks result slot body =>
    obtain ⟨htypes, hbelow⟩ := (Tree.legible_iff rfl).1 ht
    have hvalue : (Ty.fn [] [] result slot).Readable T := htypes _ List.mem_cons_self
    have hbody : body.Legible T := hbelow body.task List.mem_cons_self
    obtain ⟨-, -, hcovered, hslot⟩ := hvalue.covered
    have hresult : result.Readable T := ⟨hcovered, hvalue.whole⟩
    exact (hguard _ (safe_matchSlot hslot hbody reg)).bind fun _ =>
      (hguard _ (safe_definitionEscape hresult hbody symbol _)).bind fun _ => safe_annotate _
  | handle info body handlers type =>
    obtain ⟨htypes, hbelow⟩ := (Tree.legible_iff rfl).1 ht
    have htype : type.Readable T := htypes type List.mem_cons_self
    exact hguard _ (safe_handlerEscape htype (hbelow body.task List.mem_cons_self) handlers _)
  | binding info symbol type init =>
    have htype : type.Readable T := ((Tree.legible_iff rfl).1 ht).1 type List.mem_cons_self
    refine (hguard _ safe_solveAt).bind fun _ => safe_table_bind fun u hu => ?_
    exact (safe_orFault (htype.mono hu).exists_freeRegions).bind fun _ => safe_annotate _
  | call info callee args blockArgs type =>
    have htype : type.Readable T := ((Tree.legible_iff rfl).1 ht).1 type List.mem_cons_self
    simp only [settleBy]
    cases hcallee : calleeSignature env callee with
    | none => exact safe_pure ()
    | some sig => exact hguard _ (safe_instantiate htype (hsig callee sig hcallee) _)
  | _ => exact safe_pure ()

/-- Leaving a node whose types can be read never ends in a fault. -/
theorem safe_leaveBy {t : Tree} (ht : t.Legible T) (scope : Scope) (regs : List RegionSet) :
    Safe T (leaveBy guard env scope regs t) :=
  (safe_annotate _).bind fun _ => safe_get.bind fun _ =>
    (safe_settleBy hguard hsig ht regs _).bind fun _ => safe_recordBy hguard scope t.anchor _

end

end Check

end RegionCapture
