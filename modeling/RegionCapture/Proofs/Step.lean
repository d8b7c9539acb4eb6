import RegionCapture.Check.Monad
import RegionCapture.Proofs.Solve

/-!
# Steps of a check

A step of a check starts in a state, gives a value or a failure, and leaves a state
(`Check.outcome`). Here every step that the traversal is made of is described by when it succeeds
and what it then leaves (`Check.Yields`); the guards among them (`Check.yields_guard`) change
nothing, whether they pass or reject.
-/

namespace RegionCapture

/-- The type mentions none of the regions in a slot whose set is known. -/
def Ty.Avoids (t : Table) (type : Ty) (forbidden : RegionSet) : Prop :=
  ∃ free, type.freeRegions t = .ok free ∧ ∀ r ∈ free, r ∉ forbidden

/-- The blocks passed at a call, for the block parameters of the callee. -/
def CallSignature.passing (sig : CallSignature) (regs : List RegionSet) : RegionSubst :=
  (sig.blocks.zip regs).foldl (fun s b => s.bind (.ofSymbol b.1) b.2) []

namespace Check

variable {α β : Type} {x : Check α} {f : α → Check β} {s s' : CheckState} {a b : α} {c : β}

/-- What a step gives from a state, and the state it leaves. -/
def outcome (x : Check α) (s : CheckState) : Except Failure α × CheckState := x.run s

/-- The step gives a value and goes from one state to another. -/
def Yields (x : Check α) (s : CheckState) (a : α) (s' : CheckState) : Prop :=
  x.outcome s = (.ok a, s')

/-! ## Outcomes -/

theorem outcome_bind (x : Check α) (f : α → Check β) (s : CheckState) :
    (x >>= f).outcome s = match x.outcome s with
      | (.ok a, s') => (f a).outcome s'
      | (.error e, s') => (.error e, s') := by
  show (ExceptT.bindCont f (x.run s).1) (x.run s).2 = _
  rcases h : x.run s with ⟨_ | a, s'⟩ <;> simp only [outcome, h] <;> rfl

theorem outcome_pure (a : α) (s : CheckState) : (pure a : Check α).outcome s = (.ok a, s) := rfl

theorem outcome_throw (e : Failure) (s : CheckState) :
    (throw e : Check α).outcome s = (.error e, s) := rfl

theorem outcome_get (s : CheckState) : (get : Check CheckState).outcome s = (.ok s, s) := rfl

theorem outcome_modify (g : CheckState → CheckState) (s : CheckState) :
    (modify g : Check Unit).outcome s = (.ok (), g s) := rfl

theorem outcome_table (s : CheckState) : table.outcome s = (.ok s.store.table, s) := rfl

theorem yields_bind : Yields (x >>= f) s c s' ↔ ∃ a s₁, Yields x s a s₁ ∧ Yields (f a) s₁ c s' := by
  simp only [Yields, outcome_bind]
  rcases x.outcome s with ⟨_ | a, s₁⟩ <;> simp [and_assoc]

theorem yields_pure : Yields (pure a : Check α) s b s' ↔ a = b ∧ s = s' := by
  simp [Yields, outcome_pure]

theorem yields_get {t : CheckState} : Yields (get : Check CheckState) s t s' ↔ s = t ∧ s = s' := by
  simp [Yields, outcome_get]

theorem yields_table {t : Table} : Yields table s t s' ↔ s.store.table = t ∧ s = s' := by
  simp [Yields, outcome_table]

theorem yields_annotate {g : Annotations → Annotations} {u : Unit} :
    Yields (annotate g) s u s' ↔ s' = { s with annotations := g s.annotations } := by
  simp [Yields, annotate, outcome_modify, eq_comm]

theorem yields_equate {g : EquationStore → EquationStore} {u : Unit} :
    Yields (equate g) s u s' ↔ s' = { s with store := g s.store } := by
  simp [Yields, equate, outcome_modify, eq_comm]

theorem yields_orFault {r : Except Fault α} : Yields (orFault r) s a s' ↔ r = .ok a ∧ s = s' := by
  cases r with
  | ok b => simp [orFault, yields_pure]
  | error f => simp [orFault, Yields, outcome_throw]

theorem orFault_bind (x : Except Fault α) (f : α → Except Fault β) :
    orFault (x >>= f) = orFault x >>= fun a => orFault (f a) := by
  cases x <;> rfl

/-- Whether all elements of a list can be read is decided before anything is made of them. -/
theorem mapM_orFault {γ : Type} (f : α → Except Fault β) (g : α → β → γ) (xs : List α) :
    (xs.mapM fun x => do return g x (← orFault (f x))) =
      orFault (xs.mapM fun x => do return g x (← f x)) := by
  induction xs with
  | nil => rfl
  | cons x xs ih =>
    rw [List.mapM_cons, List.mapM_cons, ih, orFault_bind, orFault_bind]
    refine congrArg _ (funext fun b => ?_)
    rw [orFault_bind]
    rfl

theorem Yields.unique {s₁ : CheckState} (h : Yields x s a s') (h' : Yields x s b s₁) :
    a = b ∧ s' = s₁ := by
  rw [Yields, h] at h'
  simpa using h'

/-! ## Guards -/

/-- The step never gives a value. -/
def Stops (x : Check α) : Prop := ∀ s a s', ¬ Yields x s a s'

theorem stops_reject (d : Diagnostic) : Stops (reject d : Check α) := by
  intro s a s' h
  simp [Yields, reject, outcome_throw] at h

theorem stops_bind (x : Check α) (hf : ∀ a, Stops (f a)) : Stops (x >>= f) := by
  intro s c s' h
  obtain ⟨a, s₁, -, h⟩ := yields_bind.1 h
  exact hf a s₁ c s' h

/-- A guard passes, and changes nothing, if its condition holds. -/
theorem yields_guard {p : Prop} [Decidable p] {x : Check Unit} (hx : Stops x) {u : Unit} :
    Yields (if p then pure () else x) s u s' ↔ p ∧ s = s' := by
  by_cases hp : p
  · simp [hp, yields_pure]
  · simpa [hp] using hx s u s'

/-! ## The steps of the traversal -/

section
variable {env : CheckEnv} {scope : Scope} {token : Token} {symbol : SymbolId} {body : Tree}
  {u : Unit} {result type : Ty} {forbidden reg reg' : RegionSet}

theorem yields_solveAt :
    Yields (solveAt env token) s u s' ↔
    ∃ store, s.store.solve = (.ok (), store) ∧ s' = { s with store } := by
  simp only [Yields, solveAt, outcome_bind, outcome_get, outcome_modify]
  rcases s.store.solve with ⟨_ | _, store⟩
  · simp only [outcome_bind]
    rcases (provenance env).outcome _ with ⟨_ | _, _⟩ <;> simp [outcome_throw]
  · simp [outcome_pure, eq_comm]

theorem yields_verifyScope :
    Yields (verifyScope env scope token reg) s u s' ↔ (∀ r ∈ reg, r ∈ scope.lexical) ∧ s = s' := by
  unfold verifyScope
  rw [yields_guard (stops_bind _ fun _ => stops_reject _), RegionSet.subsetOf_iff]

theorem yields_record {info : Anchor} :
    Yields (record env scope info reg) s reg' s' ↔
      (env.options.verifyScopes = true → ∀ r ∈ reg, r ∈ scope.lexical) ∧ reg' = reg ∧
      s' = { s with
        annotations := s.annotations.annotateNode info.id reg, nodes := s.nodes + 1 } := by
  have hmark : ∀ t : CheckState, Yields (do
      modify fun s : CheckState =>
        { s with annotations := s.annotations.annotateNode info.id reg, nodes := s.nodes + 1 }
      return reg : Check RegionSet) t reg' s' ↔ reg' = reg ∧
        s' = { t with
        annotations := t.annotations.annotateNode info.id reg, nodes := t.nodes + 1 } := by
    intro t
    simp only [Yields, outcome_bind, outcome_modify, outcome_pure, Prod.mk.injEq, Except.ok.injEq]
    rw [eq_comm, eq_comm (b := s')]
  unfold record
  cases hv : env.options.verifyScopes with
  | true =>
    simp only [if_true, true_imp_iff]
    rw [yields_bind]
    constructor
    · rintro ⟨⟨⟩, s₁, hverify, hrest⟩
      obtain ⟨hreg, rfl⟩ := yields_verifyScope.1 hverify
      exact ⟨hreg, (hmark s).1 hrest⟩
    · rintro ⟨hreg, hrest⟩
      exact ⟨(), s, yields_verifyScope.2 ⟨hreg, rfl⟩, (hmark s).2 hrest⟩
  | false => simpa using hmark s

/-- A type passes if, with all equations solved, it mentions no forbidden region. -/
theorem yields_escape {stop : RegionSet → Check Unit} (hstop : ∀ free, Stops (stop free)) :
    Yields (do
      solveAt env token
      let free ← orFault (type.freeRegions (← table))
      unless (free ∩ forbidden).isEmpty do stop free) s u s' ↔
    Yields (solveAt env token) s () s' ∧ type.Avoids s'.store.table forbidden := by
  simp only [yields_bind, yields_table, yields_orFault]
  constructor
  · rintro ⟨⟨⟩, s₁, hsolve, _, _, ⟨rfl, rfl⟩, free, _, ⟨hfree, rfl⟩, hguard⟩
    rw [yields_guard (hstop _), RegionSet.isEmpty_iff] at hguard
    obtain ⟨hempty, rfl⟩ := hguard
    exact ⟨hsolve, free, hfree, fun r hr hf => hempty r (RegionSet.mem_inter.2 ⟨hr, hf⟩)⟩
  · rintro ⟨hsolve, free, hfree, hno⟩
    refine ⟨(), s', hsolve, _, _, ⟨rfl, rfl⟩, free, _, ⟨hfree, rfl⟩, ?_⟩
    rw [yields_guard (hstop _), RegionSet.isEmpty_iff]
    exact ⟨fun r hr => hno r (RegionSet.mem_inter.1 hr).1 (RegionSet.mem_inter.1 hr).2, rfl⟩

theorem yields_definitionEscape :
    Yields (definitionEscape env token symbol type forbidden body) s u s' ↔
      Yields (solveAt env token) s () s' ∧ type.Avoids s'.store.table forbidden := by
  dsimp only [definitionEscape]
  exact yields_escape fun _ => stops_bind _ fun _ => stops_reject _

theorem yields_handlerEscape {handlers : List Handler} :
    Yields (handlerEscape env token handlers type forbidden body) s u s' ↔
      Yields (solveAt env token) s () s' ∧ type.Avoids s'.store.table forbidden := by
  dsimp only [handlerEscape]
  exact yields_escape fun _ => stops_bind _ fun _ => stops_bind _ fun _ => stops_reject _

theorem yields_matchSlot_none : Yields (matchSlot env token none reg body) s u s' ↔ s = s' := by
  simp [matchSlot, yields_pure]

/-- A known slot bounds the regions from above. -/
theorem yields_matchSlot_of_knows {term : Term} {expected : RegionSet}
    (h : s.store.table.Knows term expected) :
    Yields (matchSlot env token (some term) reg body) s u s' ↔
    (∀ r ∈ reg, r ∈ expected) ∧ s = s' := by
  simp only [matchSlot, yields_bind, yields_table, yields_orFault]
  constructor
  · rintro ⟨_, _, ⟨rfl, rfl⟩, seen, _, ⟨hseen, rfl⟩, hrest⟩
    rw [Table.apply_of_knows h] at hseen
    cases hseen
    rwa [yields_guard (stops_bind _ fun _ => stops_bind _ fun _ => stops_reject _),
      RegionSet.subsetOf_iff] at hrest
  · intro hrest
    refine ⟨_, _, ⟨rfl, rfl⟩, _, _, ⟨Table.apply_of_knows h, rfl⟩, ?_⟩
    rwa [yields_guard (stops_bind _ fun _ => stops_bind _ fun _ => stops_reject _),
      RegionSet.subsetOf_iff]

/-- An open slot is resolved to the regions. -/
theorem yields_matchSlot_of_open {v : RegionVar} (h : s.store.table.Open (.var v)) :
    Yields (matchSlot env token (some (.var v)) reg body) s u s' ↔
      Yields (solveAt env token) { s with store := s.store.add (.var v) (.set reg) } () s' := by
  simp only [matchSlot, yields_bind, yields_table, yields_orFault]
  constructor
  · rintro ⟨_, _, ⟨rfl, rfl⟩, seen, _, ⟨hseen, rfl⟩, hrest⟩
    rw [Table.apply_of_open h] at hseen
    cases hseen
    obtain ⟨⟨⟩, _, hadd, hsolve⟩ := yields_bind.1 hrest
    rwa [yields_equate.1 hadd] at hsolve
  · intro hsolve
    exact ⟨_, _, ⟨rfl, rfl⟩, _, _, ⟨Table.apply_of_open h, rfl⟩,
      yields_bind.2 ⟨(), _, yields_equate.2 rfl, hsolve⟩⟩

/-- A slot with a variable of another table is a fault. -/
theorem covers_of_yields_matchSlot {term : Term}
    (h : Yields (matchSlot env token (some term) reg body) s u s') :
    s.store.table.Covers term := by
  refine Classical.byContradiction fun hcov => ?_
  simp only [matchSlot, yields_bind, yields_table, yields_orFault] at h
  obtain ⟨_, _, ⟨rfl, rfl⟩, seen, _, ⟨hseen, rfl⟩, -⟩ := h
  obtain ⟨f, hf⟩ := Table.apply_of_not_covers hcov
  rw [hf] at hseen
  cases hseen

theorem yields_instantiate_of_absent {sig : CallSignature} {regs : List RegionSet}
    (h : (type.isAbsent || sig.result.isAbsent) = true) :
    Yields (instantiate env token sig regs type) s u s' ↔ s = s' := by
  simp [instantiate, h, yields_pure]

/-- The slots of the call are equated to those of the callee's result in which the blocks are
substituted. -/
theorem yields_instantiate {sig : CallSignature} {regs : List RegionSet}
    (h : (type.isAbsent || sig.result.isAbsent) = false) :
    Yields (instantiate env token sig regs type) s u s' ↔
      ∃ result, sig.result.subst s.store.table (sig.passing regs) = .ok result ∧
        Yields (solveAt env token) { s with store := s.store.unify type result } () s' := by
  simp only [instantiate, h, Bool.false_eq_true, if_false, yields_bind, yields_table,
    yields_orFault]
  constructor
  · rintro ⟨_, _, ⟨rfl, rfl⟩, result, _, ⟨hresult, rfl⟩, ⟨⟩, _, hunify, hsolve⟩
    rw [yields_equate.1 hunify] at hsolve
    exact ⟨result, hresult, hsolve⟩
  · rintro ⟨result, hresult, hsolve⟩
    exact ⟨_, _, ⟨rfl, rfl⟩, result, _, ⟨hresult, rfl⟩, (), _, yields_equate.2 rfl, hsolve⟩

end

end Check

end RegionCapture
