import Mathlib.Data.Sym.Sym2
import RegionCapture.Proofs.Solve

/-!
# Solving in any order

Equations may be added to a store in any order, with their sides either way round, and solving may
be asked for at any moment in between. A run of such operations does what adding all its equations
at once and solving once would do (`EquationStore.solvedTo_complete`), and whether it succeeds is a
property of its equations alone (`EquationStore.complete_eq_ok_iff`). Main statement
`EquationStore.complete_order_independent`: two runs that add the same equations, up to order and
orientation, both fail or both succeed, and then they leave the same table and, up to order and
orientation, the same pending equations.
-/

namespace RegionCapture

/-! ## Order and orientation -/

/-- The two sides of an equation, without saying which is which. -/
def Equation.sides (e : Equation) : Sym2 Term := s(e.left, e.right)

/-- The same equations up to their order and the orientation of each. -/
def Shuffled (es es' : List Equation) : Prop :=
  (es.map Equation.sides).Perm (es'.map Equation.sides)

theorem Equation.sides_eq_iff {e e' : Equation} :
    e.sides = e'.sides ↔ e = e' ∨ e = ⟨e'.right, e'.left⟩ := by
  obtain ⟨l, r⟩ := e
  obtain ⟨l', r'⟩ := e'
  simp [sides]

namespace Shuffled

variable {es es' : List Equation} {t : Table} {σ : Assignment}

theorem symm (h : Shuffled es es') : Shuffled es' es := List.Perm.symm h

theorem exists_mem (h : Shuffled es es') {e : Equation} (he : e ∈ es) :
    ∃ e' ∈ es', e = e' ∨ e = ⟨e'.right, e'.left⟩ := by
  have hmem : e.sides ∈ es'.map Equation.sides := h.subset (List.mem_map_of_mem he)
  obtain ⟨e', he', hsides⟩ := List.mem_map.1 hmem
  exact ⟨e', he', Equation.sides_eq_iff.1 hsides.symm⟩

/-- What holds of all equations, whichever way round they are, holds of all shuffled ones. -/
theorem forall_mem {P : Equation → Prop} (hswap : ∀ l r, P ⟨l, r⟩ → P ⟨r, l⟩) (h : Shuffled es es')
    (hall : ∀ e ∈ es', P e) : ∀ e ∈ es, P e := by
  intro e he
  obtain ⟨e', he', rfl | rfl⟩ := h.exists_mem he
  · exact hall e he'
  · exact hswap _ _ (hall e' he')

theorem solves (h : Shuffled es es') (hσ : Solves σ t es') : Solves σ t es :=
  ⟨hσ.agrees, h.forall_mem (fun _ _ he => Eq.symm he) hσ.holds⟩

theorem covered (h : Shuffled es es') (hcov : ∀ e ∈ es', e.Covered t) : ∀ e ∈ es, e.Covered t :=
  h.forall_mem (fun _ _ he => he.symm) hcov

theorem isStuck_swap (t : Table) (l r : Term) :
    Equation.isStuck t ⟨l, r⟩ = Equation.isStuck t ⟨r, l⟩ := by
  rw [Bool.eq_iff_iff, Equation.isStuck_iff, Equation.isStuck_iff]
  exact and_congr ne_comm and_comm

theorem filter_isStuck (h : Shuffled es es') (t : Table) :
    Shuffled (es.filter (Equation.isStuck t)) (es'.filter (Equation.isStuck t)) := by
  -- being stuck does not depend on the orientation, so the filter may as well look at the bare
  -- sides
  let stuck : Sym2 Term → Bool := Sym2.lift ⟨fun l r => Equation.isStuck t ⟨l, r⟩, isStuck_swap t⟩
  have hstuck : ∀ es : List Equation, (es.filter (Equation.isStuck t)).map Equation.sides =
      (es.map Equation.sides).filter stuck := by
    intro es
    rw [List.filter_map]
    rfl
  rw [Shuffled, hstuck, hstuck]
  exact h.filter stuck

end Shuffled

namespace EquationStore

/-! ## Runs -/

/-- What may be asked of a store. -/
inductive Operation where
  | add (e : Equation)
  | solve

/-- The outcome of one operation; adding an equation cannot fail. -/
def perform (s : EquationStore) : Operation → Except SolveError Unit × EquationStore
  | .add e => (.ok (), s.add e.left e.right)
  | .solve => s.solve

/-- Performs operations one after the other, up to the first one that fails. -/
def run (s : EquationStore) : List Operation → Except SolveError Unit × EquationStore
  | [] => (.ok (), s)
  | op :: ops =>
    match s.perform op with
    | (.ok (), s') => s'.run ops
    | (.error err, s') => (.error err, s')

/-- A complete run: the operations on an empty store over a table, and solving at the end. -/
def complete (t : Table) (ops : List Operation) : Except SolveError Unit × EquationStore :=
  run { table := t } (ops ++ [.solve])

def Operation.equation? : Operation → Option Equation
  | .add e => some e
  | .solve => none

/-- The equations that operations add, in order. -/
def added (ops : List Operation) : List Equation := ops.filterMap Operation.equation?

variable {t : Table} {es : List Equation} {s s' : EquationStore} {ops : List Operation}
  {err : SolveError}

theorem run_append (s : EquationStore) (ops ops' : List Operation) : s.run (ops ++ ops') =
    match s.run ops with
    | (.ok (), s') => s'.run ops'
    | (.error err, s') => (.error err, s') := by
  induction ops generalizing s with
  | nil => rfl
  | cons op ops ih =>
    simp only [List.cons_append, run]
    rcases s.perform op with ⟨_ | _, s₁⟩
    · rfl
    · exact ih s₁

theorem run_solve (s : EquationStore) : s.run [.solve] = s.solve := by
  simp only [run, perform]
  rcases s.solve with ⟨_ | _, s₁⟩ <;> rfl

/-- The store comes from the table by adding the equations and solving now and then. -/
structure Collects (t : Table) (es : List Equation) (s : EquationStore) : Prop where
  extends_table : t.Extends s.table
  solution_iff : ∀ σ, s.Solution σ ↔ Solves σ t es
  pending_subset : ∀ e ∈ s.pending, e ∈ es
  done : ∀ e ∈ es, e ∈ s.pending ∨ (e.Covered t ∧ e.Settled s.table)
  restricts : ∀ u, s.table.Extends u →
    s.pending.filter (Equation.isStuck u) = es.filter (Equation.isStuck u)

theorem collects_empty (t : Table) : Collects t [] { table := t } where
  extends_table := .refl t
  solution_iff _ := .rfl
  pending_subset _ h := absurd h List.not_mem_nil
  done _ h := absurd h List.not_mem_nil
  restricts _ _ := rfl

theorem solves_concat {σ : Assignment} {e : Equation} :
    Solves σ t (es ++ [e]) ↔ Solves σ t es ∧ e.Holds σ := by
  constructor
  · intro h
    exact ⟨⟨h.agrees, fun e' he' => h.holds e' (List.mem_append_left _ he')⟩, h.holds e (by simp)⟩
  · rintro ⟨h, he⟩
    refine ⟨h.agrees, fun e' he' => ?_⟩
    rcases List.mem_append.1 he' with he' | he'
    · exact h.holds e' he'
    · rwa [List.mem_singleton.1 he']

theorem Collects.add (h : Collects t es s) (e : Equation) :
    Collects t (es ++ [e]) (s.add e.left e.right) where
  extends_table := h.extends_table
  solution_iff σ := by
    show Solves σ s.table (s.pending ++ [e]) ↔ _
    rw [solves_concat, solves_concat]
    exact and_congr_left' (h.solution_iff σ)
  pending_subset e' he' := by
    rcases List.mem_append.1 he' with he' | he'
    · exact List.mem_append_left _ (h.pending_subset e' he')
    · exact List.mem_append_right _ he'
  done e' he' := by
    rcases List.mem_append.1 he' with he' | he'
    · exact (h.done e' he').imp_left fun hp => List.mem_append_left _ hp
    · exact .inl (List.mem_append_right _ he')
  restricts u hu := by
    show (s.pending ++ [e]).filter _ = _
    rw [List.filter_append, List.filter_append, h.restricts u hu]

theorem isStuck_of_extends {u : Table} {e : Equation} (h : t.Extends u) (he : e.isStuck u = true) :
    e.isStuck t = true := by
  obtain ⟨hne, hl, hr⟩ := Equation.isStuck_iff.1 he
  exact Equation.isStuck_iff.2 ⟨hne, h.open_of_open hl, h.open_of_open hr⟩

theorem Collects.covered (h : Collects t es s) {e : Equation}
    (he : e.Covered s.table) : e.Covered t :=
  ⟨h.extends_table.covers_iff.1 he.1, h.extends_table.covers_iff.1 he.2⟩

theorem Collects.solve (h : Collects t es s) (hs : s.SolvedTo s') : Collects t es s' where
  extends_table := h.extends_table.trans hs.extends_table
  solution_iff σ := (hs.solution_iff σ).trans (h.solution_iff σ)
  pending_subset e he := by
    rw [hs.pending_eq] at he
    exact h.pending_subset e (List.mem_of_mem_filter he)
  done e he := by
    rcases h.done e he with hp | ⟨hcov, hsettled⟩
    · exact (hs.settles e hp).imp_right fun hsettled => ⟨h.covered (hs.covers e hp), hsettled⟩
    · exact .inr ⟨hcov, hsettled.mono hs.extends_table⟩
  restricts u hu := by
    rw [hs.pending_eq, List.filter_filter, ← h.restricts u (hs.extends_table.trans hu)]
    refine List.filter_congr fun e _ => ?_
    cases hstuck : e.isStuck u with
    | false => rfl
    | true => exact isStuck_of_extends hu hstuck

/-! ## Runs against solving once -/

/-- The equations speak of the table's variables only, and some assignment solves them. -/
def Solvable (t : Table) (es : List Equation) : Prop := (∀ e ∈ es, e.Covered t) ∧ ∃ σ, Solves σ t es

theorem Solvable.left {es' : List Equation} (h : Solvable t (es ++ es')) : Solvable t es := by
  obtain ⟨hcov, σ, hσ⟩ := h
  exact ⟨fun e he => hcov e (List.mem_append_left _ he),
    σ, hσ.agrees, fun e he => hσ.holds e (List.mem_append_left _ he)⟩

/-- A failing solve shows that the equations collected so far cannot be solved. -/
theorem Collects.not_solvable (h : Collects t es s) (hs : s.solve = (.error err, s')) :
    ¬ Solvable t es := by
  rintro ⟨hcov, σ, hσ⟩
  rcases (solve_outcome s).stops err (by rw [hs]) with ⟨-, -, -, hno⟩ | ⟨-, e, he, hforeign⟩
  · exact hno σ ((h.solution_iff σ).2 hσ)
  · have hcov := hcov e (h.pending_subset e he)
    exact hforeign ⟨h.extends_table.covers_iff.2 hcov.1, h.extends_table.covers_iff.2 hcov.2⟩

/-- What a run leaves, and why it fails. -/
theorem Collects.run (h : Collects t es s) (ops : List Operation) :
    (∀ s', s.run ops = (.ok (), s') → Collects t (es ++ added ops) s') ∧
    (∀ err s', s.run ops = (.error err, s') → ¬ Solvable t (es ++ added ops)) := by
  induction ops generalizing s es with
  | nil =>
    refine ⟨fun s' hrun => ?_, nofun⟩
    cases hrun
    exact (List.append_nil es).symm ▸ h
  | cons op ops ih =>
    cases op with
    | add e =>
      have hrest := ih (h.add e)
      rwa [List.append_assoc] at hrest
    | solve =>
      simp only [EquationStore.run, perform, added]
      rcases hsolve : s.solve with ⟨err | _, s₁⟩
      · refine ⟨nofun, fun _ _ _ hsolvable => ?_⟩
        exact h.not_solvable hsolve hsolvable.left
      · exact ih (h.solve (solvedTo_solve hsolve))

/-- A run that ends by solving has collected its equations and then solved them. -/
theorem Collects.exists_solvedTo (h : Collects t es s)
    (hrun : s.run (ops ++ [.solve]) = (.ok (), s')) :
    ∃ s₁, Collects t (es ++ added ops) s₁ ∧ s₁.SolvedTo s' := by
  rw [run_append] at hrun
  rcases hops : s.run ops with ⟨err | _, s₁⟩
  · rw [hops] at hrun
    cases hrun
  · rw [hops] at hrun
    exact ⟨s₁, (h.run ops).1 s₁ hops, solvedTo_solve ((run_solve s₁).symm.trans hrun)⟩

/-- A complete run has solved all its equations, as if they had been added at once. -/
theorem solvedTo_complete (hrun : complete t ops = (.ok (), s')) :
    SolvedTo { table := t, pending := added ops } s' := by
  obtain ⟨s, hcollects, hsolved⟩ := (collects_empty t).exists_solvedTo hrun
  have hend : Collects t (added ops) s' := hcollects.solve hsolved
  refine ⟨hend.extends_table, hend.solution_iff, ?_, fun e he => ?_, fun e he => ?_⟩
  · rw [← hend.restricts s'.table (.refl _)]
    exact (List.filter_eq_self.2 hsolved.stuck).symm
  · rcases hend.done e he with hp | ⟨hcov, -⟩
    · exact hend.covered (Equation.covered_of_stuck (hsolved.stuck e hp))
    · exact hcov
  · exact (hend.done e he).imp_right And.right

theorem added_solve (ops : List Operation) : added (ops ++ [.solve]) = added ops := by
  simp [added, Operation.equation?]

theorem complete_eq_ok_iff : (complete t ops).1 = .ok () ↔ Solvable t (added ops) := by
  rcases hrun : complete t ops with ⟨err | _, s'⟩
  · have hno := ((collects_empty t).run (ops ++ [Operation.solve])).2 err s' hrun
    rw [List.nil_append, added_solve] at hno
    exact iff_of_false nofun hno
  · have hs := solvedTo_complete hrun
    have hsol := (hs.solution_iff _).1 (filling_solves hs.stuck ∅)
    exact iff_of_true rfl ⟨hs.covers, _, hsol⟩

/-! ## Shuffled runs -/

theorem Solvable.shuffled {es' : List Equation} (h : Solvable t es) (hes : Shuffled es' es) :
    Solvable t es' := by
  obtain ⟨hcov, σ, hσ⟩ := h
  exact ⟨hes.covered hcov, σ, hes.solves hσ⟩

/-- What is known after solving equations is known after solving them shuffled. -/
theorem SolvedTo.extends_shuffled {es' : List Equation} {u u' : EquationStore}
    (h : SolvedTo { table := t, pending := es } u) (h' : SolvedTo { table := t, pending := es' } u')
    (hes : Shuffled es es') : u.table.Extends u'.table := by
  refine ⟨h'.extends_table.size_eq.trans h.extends_table.size_eq.symm, fun v r hv => ?_⟩
  have hcov : t.Covers (.var v) := h.extends_table.covers_iff.1 (Table.knows_var.2 hv).covers
  have hforced := (h.knows_iff_forced hcov r).1 (Table.knows_var.2 hv)
  exact Table.knows_var.1 ((h'.knows_iff_forced hcov r).2 fun σ hσ => hforced σ (hes.solves hσ))

/-- The outcome of adding equations and solving depends neither on the order of the equations, nor
on their orientation, nor on when solving is asked for: two complete runs both fail or both succeed,
and after success their tables are equal and their pending equations are the same up to order and
orientation. -/
theorem complete_order_independent (t : Table) {ops ops' : List Operation}
    (h : Shuffled (added ops) (added ops')) :
    ((complete t ops).1 = .ok () ↔ (complete t ops').1 = .ok ()) ∧
    ((complete t ops).1 = .ok () → (complete t ops).2.table = (complete t ops').2.table ∧
      Shuffled (complete t ops).2.pending (complete t ops').2.pending) := by
  have hiff : (complete t ops).1 = .ok () ↔ (complete t ops').1 = .ok () := by
    rw [complete_eq_ok_iff, complete_eq_ok_iff]
    exact ⟨fun hsolvable => hsolvable.shuffled h.symm, fun hsolvable => hsolvable.shuffled h⟩
  refine ⟨hiff, fun hok => ?_⟩
  have hs := solvedTo_complete (Prod.ext hok rfl)
  have hs' := solvedTo_complete (Prod.ext (hiff.1 hok) rfl)
  have htable := (hs.extends_shuffled hs' h).antisymm (hs'.extends_shuffled hs h.symm)
  refine ⟨htable, ?_⟩
  rw [hs.pending_eq, hs'.pending_eq, htable]
  exact h.filter_isStuck _

/-- The equations of a chain, solved too early to learn anything, beside two variables that nothing
determines. -/
def chainForward : List Operation :=
  [.add ⟨.var 1, .var 2⟩, .solve, .add ⟨.var 3, .var 4⟩, .add ⟨.set (.singleton 7), .var 2⟩]

/-- The same equations in another order, turned round, and solved at another moment. -/
def chainBackward : List Operation :=
  [.add ⟨.var 4, .var 3⟩, .add ⟨.var 2, .set (.singleton 7)⟩, .solve, .add ⟨.var 2, .var 1⟩]

theorem complete_order_independent_chain :
    Shuffled (added chainForward) (added chainBackward) ∧
    (complete ⟨[none, none, none, none]⟩ chainForward).2.pending = [⟨.var 3, .var 4⟩] ∧
    (complete ⟨[none, none, none, none]⟩ chainBackward).1 = .ok () ∧
    (complete ⟨[none, none, none, none]⟩ chainBackward).2.table =
      ⟨[some (.singleton 7), some (.singleton 7), none, none]⟩ ∧
    Shuffled [⟨.var 3, .var 4⟩] (complete ⟨[none, none, none, none]⟩ chainBackward).2.pending := by
  have hshuffled : Shuffled (added chainForward) (added chainBackward) := by
    unfold Shuffled
    decide
  obtain ⟨hiff, hsame⟩ := complete_order_independent ⟨[none, none, none, none]⟩ hshuffled
  obtain ⟨htable, hpending⟩ := hsame rfl
  exact ⟨hshuffled, rfl, hiff.1 rfl, htable.symm.trans rfl, hpending⟩

end EquationStore

end RegionCapture
