import RegionCapture.Proofs.Solve

/-!
# The loop of solving

Solving scans the pending equations until a scan resolves nothing, without a bound on the number of
scans. Written as rules, that loop is `EquationStore.RunsTo`. It always ends, and `solve` is what it
ends with (`EquationStore.runsTo_solve`), so what every round of the loop does to the counters and
to the pending equations is what `solve` does to them. Main statements:
`EquationStore.solve_ends_counted`, solving counts at most one scan per variable that it resolves,
and `EquationStore.failed_solve_loses_one`, solving that fails loses the one equation that it
reports.
-/

namespace RegionCapture

namespace Table

/-- The number of variables that are open in the first table and known in the second. -/
def newlyKnown (t u : Table) : Nat := (t.cells.zip u.cells).countP fun c => c.1.isNone && c.2.isSome

/-- What is left of equations after some were dropped that the table knows to hold. -/
inductive Thins (t : Table) : List Equation → List Equation → Prop
  | nil : Thins t [] []
  | keep {es fs : List Equation} (e : Equation) (rest : Thins t es fs) : Thins t (e :: es) (e :: fs)
  | drop {es fs : List Equation} {e : Equation} (known : e.Settled t)
    (rest : Thins t es fs) : Thins t (e :: es) fs

/-- Of the equations one is gone that requires two sets to be equal, and else only some that the
table knows to hold. -/
inductive LosesOne (t : Table) (es kept : List Equation) (a b : RegionSet) : Prop
  | intro (before : List Equation) (e : Equation) (after : List Equation)
    (split : es = before ++ e :: after) (left : t.Knows e.left a) (right : t.Knows e.right b)
    (rest : t.Thins (before ++ after) kept)

variable {t u : Table} {e : Equation} {es fs gs kept before after : List Equation} {a b : RegionSet}

/-! ## Counting what a table learns -/

theorem countP_zip_add_countP {cs ds : List (Option RegionSet)} (hlen : ds.length = cs.length)
    (hkeeps : ∀ (n : Nat) (s : RegionSet), cs[n]? = some (some s) → ds[n]? = some (some s)) :
    (cs.zip ds).countP (fun c => c.1.isNone && c.2.isSome) + ds.countP Option.isNone =
      cs.countP Option.isNone := by
  induction cs generalizing ds with
  | nil => simp [List.length_eq_zero_iff.1 hlen]
  | cons c cs ih =>
    cases ds with
    | nil => cases hlen
    | cons d ds =>
      have hrest := ih (Nat.succ.inj hlen) fun n s hn => by
        simpa using hkeeps (n + 1) s (by simpa using hn)
      have hfirst : ∀ s, c = some s → d = some s := fun s hc => by simpa [hc] using hkeeps 0 s
      rw [List.zip_cons_cons, List.countP_cons, List.countP_cons, List.countP_cons]
      cases c with
      | some s =>
        rw [hfirst s rfl]
        simpa using hrest
      | none =>
        cases d <;> simp <;> omega

/-- A variable that was open is still open, or newly known. -/
theorem Extends.newlyKnown_add (h : t.Extends u) : t.newlyKnown u + u.unresolved = t.unresolved :=
  countP_zip_add_countP h.size_eq fun n s => h.keeps (n + 1) s

/-! ## Dropping equations that hold -/

theorem Thins.refl (t : Table) (es : List Equation) : t.Thins es es := by
  induction es with
  | nil => exact .nil
  | cons e es ih => exact .keep e ih

theorem Thins.mono (h : t.Thins es fs) (hu : t.Extends u) : u.Thins es fs := by
  induction h with
  | nil => exact .nil
  | keep e _ ih => exact .keep e ih
  | drop known _ ih => exact .drop (known.mono hu) ih

theorem Thins.trans (h : t.Thins es fs) (h' : t.Thins fs gs) : t.Thins es gs := by
  induction h generalizing gs with
  | nil => exact h'
  | keep e _ ih =>
    cases h' with
    | keep _ rest => exact .keep e (ih rest)
    | drop known rest => exact .drop known (ih rest)
  | drop known _ ih => exact .drop known (ih h')

theorem Thins.append {es' fs' : List Equation} (h : t.Thins es fs) (h' : t.Thins es' fs') :
    t.Thins (es ++ es') (fs ++ fs') := by
  induction h with
  | nil => exact h'
  | keep e _ ih => exact .keep e ih
  | drop known _ ih => exact .drop known ih

theorem Thins.sublist (h : t.Thins es fs) : fs.Sublist es := by
  induction h with
  | nil => exact .slnil
  | keep e _ ih => exact ih.cons_cons e
  | drop _ _ ih => exact ih.cons _

/-- An equation that is left was there, and what is left around it is left of what was around it. -/
theorem Thins.split (h : t.Thins es (before ++ e :: after)) :
    ∃ before' after', es = before' ++ e :: after' ∧ t.Thins before' before ∧
      t.Thins after' after := by
  generalize hfs : before ++ e :: after = fs at h
  induction h generalizing before with
  | nil => simp at hfs
  | @keep es fs d rest ih =>
    cases before with
    | nil =>
      obtain ⟨rfl, rfl⟩ := List.cons.inj hfs
      exact ⟨[], es, rfl, .nil, rest⟩
    | cons c before =>
      obtain ⟨rfl, htail⟩ := List.cons.inj hfs
      obtain ⟨before', after', rfl, hbefore, hafter⟩ := ih htail
      exact ⟨c :: before', after', rfl, .keep c hbefore, hafter⟩
  | @drop es fs d known rest ih =>
    obtain ⟨before', after', rfl, hbefore, hafter⟩ := ih hfs
    exact ⟨d :: before', after', rfl, .drop known hbefore, hafter⟩

namespace LosesOne

theorem sublist (h : t.LosesOne es kept a b) : kept.Sublist es := by
  obtain ⟨before, e, after, rfl, -, -, hrest⟩ := h
  exact hrest.sublist.trans ((List.Sublist.refl before).append (List.sublist_cons_self e after))

theorem keep (h : t.LosesOne es kept a b) (e : Equation) :
    t.LosesOne (e :: es) (e :: kept) a b := by
  obtain ⟨before, e', after, rfl, hleft, hright, hrest⟩ := h
  exact ⟨e :: before, e', after, rfl, hleft, hright, .keep e hrest⟩

/-- Dropping equations that hold, and then losing one. -/
theorem of_thins (h : t.Thins es fs) (h' : t.LosesOne fs kept a b) : t.LosesOne es kept a b := by
  obtain ⟨before, e, after, rfl, hleft, hright, hrest⟩ := h'
  obtain ⟨before', after', rfl, hbefore, hafter⟩ := h.split
  exact ⟨before', e, after', rfl, hleft, hright, (hbefore.append hafter).trans hrest⟩

end LosesOne

/-! ## One scan -/

/-- A scan that is not stopped drops only equations that hold afterwards. -/
theorem thins_scan (hn : (t.scan es).error = none) :
    (t.scan es).table.Thins es (t.scan es).kept := by
  induction es generalizing t with
  | nil => exact .nil
  | cons e es ih =>
    cases t.reading e with
    | settled _ known scan =>
      rw [scan es] at hn ⊢
      exact .drop (known.mono (t.scan_spec es).extends_table) (ih hn)
    | fill v s isOpen sides scan =>
      rw [scan es] at hn ⊢
      exact .drop ((settled_write isOpen sides).mono
        ((t.write v s).scan_spec es).extends_table) (ih hn)
    | stuck _ scan =>
      rw [scan es] at hn ⊢
      exact .keep e (ih hn)
    | clash _ _ _ _ _ scan =>
      rw [scan es] at hn
      cases hn
    | fault _ _ scan =>
      rw [scan es] at hn
      cases hn

/-- A scan that finds two sets to differ loses the equation between them. -/
theorem losesOne_scan (herr : (t.scan es).error = some (.mismatch a b)) :
    a ≠ b ∧ (t.scan es).table.LosesOne es (t.scan es).kept a b := by
  induction es generalizing t with
  | nil => cases herr
  | cons e es ih =>
    cases t.reading e with
    | settled _ known scan =>
      rw [scan es] at herr ⊢
      obtain ⟨hne, hloses⟩ := ih herr
      exact ⟨hne, .of_thins (.drop (known.mono (t.scan_spec es).extends_table) (.refl _ es)) hloses⟩
    | fill v s isOpen sides scan =>
      rw [scan es] at herr ⊢
      obtain ⟨hne, hloses⟩ := ih herr
      have hknown := (settled_write isOpen sides).mono ((t.write v s).scan_spec es).extends_table
      exact ⟨hne, .of_thins (.drop hknown (.refl _ es)) hloses⟩
    | stuck _ scan =>
      rw [scan es] at herr ⊢
      obtain ⟨hne, hloses⟩ := ih herr
      exact ⟨hne, hloses.keep e⟩
    | clash l r ne left right scan =>
      rw [scan es] at herr ⊢
      cases herr
      exact ⟨ne, [], e, es, rfl, left, right, .refl t es⟩
    | fault _ _ scan =>
      rw [scan es] at herr
      cases herr

end Table

namespace EquationStore

/-! ## The loop -/

/-- The store after one scan of its pending equations. -/
def scanned (s : EquationStore) : EquationStore :=
  { s with table := (s.table.scan s.pending).table, pending := (s.table.scan s.pending).kept }

/-- The store after one scan that resolved variables, which is counted. -/
def counted (s : EquationStore) : EquationStore :=
  { s.scanned with stats := { s.stats with
      passes := s.stats.passes + 1
      lastPasses := s.stats.lastPasses + 1
      resolved := s.stats.resolved + (s.table.scan s.pending).resolved } }

def begun (s : EquationStore) : EquationStore :=
  { s with stats := { s.stats with invocations := s.stats.invocations + 1, lastPasses := 0 } }

/-- The loop of solving, from a store to what it ends with: while equations are pending they are
scanned, until a scan resolves nothing or is stopped. -/
inductive RunsTo : EquationStore → Except SolveError Unit × EquationStore → Prop
  | done {s : EquationStore} (empty : s.pending = []) : RunsTo s (.ok (), s)
  | idle {s : EquationStore} (pending : s.pending ≠ [])
    (passed : (s.table.scan s.pending).error = none)
    (nothing : (s.table.scan s.pending).resolved = 0) : RunsTo s (.ok (), s.scanned)
  | again {s : EquationStore} {r : Except SolveError Unit × EquationStore}
    (pending : s.pending ≠ []) (passed : (s.table.scan s.pending).error = none)
    (something : (s.table.scan s.pending).resolved ≠ 0)
    (rest : RunsTo s.counted r) : RunsTo s r
  | stopped {s : EquationStore} {err : SolveError} (pending : s.pending ≠ [])
    (error : (s.table.scan s.pending).error = some err) (real : ∀ f, err ≠ .fault f) :
    RunsTo s (.error err, s.scanned)
  | broken {s : EquationStore} {f : Fault} (pending : s.pending ≠ [])
    (error : (s.table.scan s.pending).error = some (.fault f)) :
    RunsTo s (.error (.fault f), { s with table := (s.table.scan s.pending).table })

variable {s s' : EquationStore} {r : Except SolveError Unit × EquationStore}

/-- The loop ends within any number of scans that exceeds the number of open variables. -/
theorem runsTo_scans {fuel : Nat} (hfuel : s.table.unresolved < fuel) :
    s.RunsTo (scans fuel s) := by
  induction fuel generalizing s with
  | zero => exact absurd hfuel (Nat.not_lt_zero _)
  | succ fuel ih =>
    simp only [scans]
    split
    · rename_i hempty
      exact .done (List.isEmpty_iff.1 hempty)
    · rename_i hpending
      rw [List.isEmpty_iff] at hpending
      split
      · rename_i f herr
        exact .broken hpending herr
      · rename_i err hreal herr
        exact .stopped hpending herr hreal
      · rename_i hn
        split
        · rename_i h0
          exact .idle hpending hn h0
        · rename_i h0
          -- a scan that resolves a variable leaves fewer open ones
          have hcount := (s.table.scan_spec s.pending).counts
          refine .again hpending hn h0 (ih ?_)
          show (s.table.scan s.pending).table.unresolved < fuel
          omega

/-- The loop of solving ends, with what solving gives. -/
theorem runsTo_solve (s : EquationStore) : s.begun.RunsTo s.solve :=
  runsTo_scans (Nat.lt_succ_self _)

theorem RunsTo.extends_table (h : s.RunsTo r) : s.table.Extends r.2.table := by
  induction h with
  | done => exact .refl _
  | @again s _ _ _ _ _ ih =>
    exact Table.Extends.trans (u := s.counted.table) (s.table.scan_spec s.pending).extends_table ih
  | @idle s => exact (s.table.scan_spec s.pending).extends_table
  | @stopped s => exact (s.table.scan_spec s.pending).extends_table
  | @broken s => exact (s.table.scan_spec s.pending).extends_table

/-! ## What the loop counts -/

/-- On the way from a store to the result of the loop the counted scans are counted once each, at
most one for each variable that is resolved; if the loop succeeds, every resolved variable is
counted. -/
structure Tally (s : EquationStore) (r : Except SolveError Unit × EquationStore) : Prop where
  invocations : r.2.stats.invocations = s.stats.invocations
  passes : r.2.stats.passes + s.stats.lastPasses = s.stats.passes + r.2.stats.lastPasses
  bound : r.2.stats.lastPasses + r.2.table.unresolved ≤ s.stats.lastPasses + s.table.unresolved
  resolved : r.1 = .ok () →
    r.2.stats.resolved + r.2.table.unresolved = s.stats.resolved + s.table.unresolved

theorem RunsTo.tally (h : s.RunsTo r) : s.Tally r := by
  induction h with
  | done => exact ⟨rfl, rfl, Nat.le_refl _, fun _ => rfl⟩
  | @idle s _ _ nothing =>
    have hcount : s.scanned.table.unresolved + _ = _ := (s.table.scan_spec s.pending).counts
    exact ⟨rfl, rfl, by simp only [scanned] at *; omega,
      fun _ => by simp only [scanned] at *; omega⟩
  | @again s r _ _ something _ ih =>
    have hcount := (s.table.scan_spec s.pending).counts
    obtain ⟨hinvocations, hpasses, hbound, hresolved⟩ := ih
    simp only [counted, scanned] at hinvocations hpasses hbound hresolved
    refine ⟨hinvocations, by omega, by omega, fun hok => ?_⟩
    have hlater := hresolved hok
    omega
  | @stopped s err _ _ _ =>
    have hcount := (s.table.scan_spec s.pending).counts
    exact ⟨rfl, rfl, by simp only [scanned]; omega, nofun⟩
  | @broken s f _ _ =>
    have hcount := (s.table.scan_spec s.pending).counts
    exact ⟨rfl, rfl, by simp only; omega, nofun⟩

/-- Solving ends: the loop runs to its result, which is no fault. It counts itself once and the
scans of the call once each, at most one for each variable that was open and is known afterwards;
and if it succeeds, it counts exactly these variables. -/
theorem solve_ends_counted (s : EquationStore) (hcov : ∀ e ∈ s.pending, e.Covered s.table) :
    s.begun.RunsTo s.solve ∧ (∀ f, s.solve.1 ≠ .error (.fault f)) ∧
    s.solve.2.stats.invocations = s.stats.invocations + 1 ∧
    s.solve.2.stats.passes = s.stats.passes + s.solve.2.stats.lastPasses ∧
    s.solve.2.stats.lastPasses ≤ s.table.newlyKnown s.solve.2.table ∧
    s.table.newlyKnown s.solve.2.table ≤ s.table.unresolved ∧
    (s.solve.1 = .ok () → s.solve.2.stats.resolved = s.stats.resolved +
      s.table.newlyKnown s.solve.2.table) := by
  have hruns := runsTo_solve s
  obtain ⟨hinvocations, hpasses, hbound, hresolved⟩ := hruns.tally
  have hlearned := hruns.extends_table.newlyKnown_add
  simp only [begun] at hinvocations hpasses hbound hresolved hlearned
  refine ⟨hruns, fun f hfault => ?_, hinvocations, by omega, by omega, by omega, fun hok => ?_⟩
  · obtain ⟨a, b, hmismatch⟩ := mismatch_of_covered hcov hfault
    cases hmismatch
  · have hcounted := hresolved hok
    omega

/-- The chain takes a scan for each of its two variables, so the bound is reached; the last scan is
not counted. -/
theorem solve_ends_counted_chained :
    (∀ e ∈ chained.pending, e.Covered chained.table) ∧ chained.begun.RunsTo chained.solve ∧
    chained.solve.1 = .ok () ∧ chained.solve.2.stats.lastPasses = 2 ∧
    chained.solve.2.stats.lastPasses ≤ chained.table.newlyKnown chained.solve.2.table ∧
    chained.solve.2.stats.resolved = chained.table.newlyKnown chained.solve.2.table := by
  have hcov : ∀ e ∈ chained.pending, e.Covered chained.table := by
    simp [chained, Equation.Covered, Table.covers_set, Table.covers_var, Table.cell?]
  have hok : chained.solve.1 = .ok () := rfl
  obtain ⟨hruns, -, -, -, hbound, -, hresolved⟩ := solve_ends_counted chained hcov
  exact ⟨hcov, hruns, hok, rfl, hbound, (hresolved hok).trans (Nat.zero_add _)⟩

/-! ## What a failed call loses -/

theorem RunsTo.losesOne {a b : RegionSet} (h : s.RunsTo r) (hr : r.1 = .error (.mismatch a b)) :
    a ≠ b ∧ r.2.table.LosesOne s.pending r.2.pending a b := by
  induction h with
  | done => cases hr
  | idle => cases hr
  | broken => cases hr
  | stopped _ error _ =>
    cases hr
    exact Table.losesOne_scan error
  | @again s r _ passed _ rest ih =>
    obtain ⟨hne, hloses⟩ := ih hr
    exact ⟨hne, .of_thins ((Table.thins_scan passed).mono rest.extends_table) hloses⟩

/-- Solving that fails keeps what is known, and loses one equation: it reports the two different
sets that the sides of this equation are known to be. Every other equation is still pending, in
order, or known to hold. -/
theorem failed_solve_loses_one (hcov : ∀ e ∈ s.pending, e.Covered s.table) {err : SolveError}
    (h : s.solve = (.error err, s')) :
    s.table.Extends s'.table ∧ s'.pending.Sublist s.pending ∧
    ∃ a b, err = .mismatch a b ∧ a ≠ b ∧ ∃ before e after, s.pending = before ++ e :: after ∧
      s'.table.Knows e.left a ∧ s'.table.Knows e.right b ∧
      s'.table.Thins (before ++ after) s'.pending := by
  have hruns := runsTo_solve s
  obtain ⟨a, b, rfl⟩ := mismatch_of_covered hcov (congrArg Prod.fst h)
  rw [h] at hruns
  obtain ⟨hne, hloses⟩ := hruns.losesOne rfl
  have hsublist := hloses.sublist
  obtain ⟨before, e, after, hsplit, hleft, hright, hrest⟩ := hloses
  exact ⟨hruns.extends_table, hsublist, a, b, rfl, hne, before, e, after, hsplit, hleft,
    hright, hrest⟩

/-- The first scan resolves the variables 1 and 2 from the last two equations, and the second finds
that the first equation does not hold; the second equation is not scanned again. -/
def contradictory : EquationStore where
  table := ⟨[none, none, none, none]⟩
  pending := [⟨.var 1, .var 2⟩, ⟨.var 3, .var 4⟩, ⟨.set (.singleton 7), .var 2⟩,
    ⟨.var 1, .set (.singleton 8)⟩]

theorem failed_solve_loses_one_contradictory :
    ∃ s', contradictory.solve = (.error (.mismatch (.singleton 8) (.singleton 7)), s') ∧
      s'.pending = [⟨.var 3, .var 4⟩] ∧
      ∃ before e after, contradictory.pending = before ++ e :: after ∧
        s'.table.Knows e.left (.singleton 8) ∧ s'.table.Knows e.right (.singleton 7) ∧
        s'.table.Thins (before ++ after) [⟨.var 3, .var 4⟩] := by
  have hcov : ∀ e ∈ contradictory.pending, e.Covered contradictory.table := by
    simp [contradictory, Equation.Covered, Table.covers_set, Table.covers_var, Table.cell?]
  have hsolve : contradictory.solve =
      (.error (.mismatch (.singleton 8) (.singleton 7)), contradictory.solve.2) := rfl
  obtain ⟨-, -, a, b, herr, -, hlost⟩ := failed_solve_loses_one hcov hsolve
  cases herr
  exact ⟨_, hsolve, rfl, hlost⟩

end EquationStore

end RegionCapture
