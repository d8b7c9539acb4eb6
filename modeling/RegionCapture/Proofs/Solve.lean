import RegionCapture.Region.Equation
import RegionCapture.Proofs.Table

/-!
# Solving is sound, complete and exact

A solution of a store gives every variable a set, in agreement with the cells that are written, such
that all pending equations hold. One scan keeps the solutions (`Table.scan_spec`) and so do the
scans of `solve`. Main statement `EquationStore.solve_exact`: solving succeeds iff there is a
solution, it writes exactly the cells that all solutions agree on, and what stays pending are the
equations between two different variables that are still open.
-/

namespace RegionCapture

abbrev Assignment := RegionVar → RegionSet

/-- The set a term stands for under an assignment. -/
def Term.under (σ : Assignment) : Term → RegionSet
  | .set s => s
  | .var v => σ v

/-- The assignment has the sets that the table knows. -/
def Table.Agrees (t : Table) (σ : Assignment) : Prop := ∀ v s, t.cell? v = some (some s) → σ v = s

namespace Equation

/-- Both sides stand for the same set. -/
def Holds (σ : Assignment) (e : Equation) : Prop := e.left.under σ = e.right.under σ

/-- The equation has no variable of another table. -/
def Covered (t : Table) (e : Equation) : Prop := t.Covers e.left ∧ t.Covers e.right

/-- The table knows that the equation holds. -/
def Settled (t : Table) (e : Equation) : Prop :=
  e.left = e.right ∨ ∃ s, t.Knows e.left s ∧ t.Knows e.right s

/-- Whether the sides are two different open variables. -/
def isStuck (t : Table) : Equation → Bool
  | ⟨.var v, .var w⟩ => v ≠ w ∧ t.cell? v = some none ∧ t.cell? w = some none
  | _ => false

/-- One side is known to be the set and the other one is the variable. -/
def Determines (t : Table) (v : RegionVar) (s : RegionSet) (e : Equation) : Prop :=
  (t.Knows e.left s ∧ e.right = .var v) ∨ (e.left = .var v ∧ t.Knows e.right s)

/-- Solving has nothing to do for the equation: it is known to hold, or between two different open
variables. -/
def Quiet (t : Table) (e : Equation) : Prop := e.Covered t ∧ (e.Settled t ∨ e.isStuck t = true)

theorem isStuck_iff {t : Table} {e : Equation} :
    e.isStuck t = true ↔ e.left ≠ e.right ∧ t.Open e.left ∧ t.Open e.right := by
  obtain ⟨l | v, r | w⟩ := e
  · simp [isStuck, Table.not_open_set]
  · simp [isStuck, Table.not_open_set]
  · simp [isStuck, Table.not_open_set]
  · simp [isStuck, Table.open_var]

end Equation

namespace Table

variable {t u : Table} {e : Equation} {es : List Equation} {σ : Assignment}

/-! ## Agreement and settled equations -/

theorem Agrees.under_eq {term : Term} {s : RegionSet} (h : t.Agrees σ) (hk : t.Knows term s) :
    term.under σ = s := by
  cases term with
  | set s' => exact knows_set.1 hk
  | var v => exact h v s (knows_var.1 hk)

theorem Extends.agrees (h : t.Extends u) (hu : u.Agrees σ) : t.Agrees σ :=
  fun v s hv => hu v s (h.keeps v s hv)

theorem agrees_write_iff {v : RegionVar} {s : RegionSet} (hv : t.cell? v = some none) :
    (t.write v s).Agrees σ ↔ t.Agrees σ ∧ σ v = s := by
  constructor
  · intro h
    exact ⟨(extends_write s hv).agrees h, h v s (cell?_write_self s hv)⟩
  · rintro ⟨h, hs⟩ w r hw
    by_cases hwv : w = v
    · subst hwv
      rw [cell?_write_self s hv] at hw
      simp only [Option.some.injEq] at hw
      exact hs.trans hw
    · rw [cell?_write_of_ne s hwv (ne_zero_of_cell? hv)] at hw
      exact h w r hw

end Table

namespace Equation

variable {t u : Table} {e : Equation} {σ : Assignment}

theorem covered_of_stuck (h : e.isStuck t = true) : e.Covered t :=
  ⟨(isStuck_iff.1 h).2.1.covers, (isStuck_iff.1 h).2.2.covers⟩

theorem Settled.mono (h : e.Settled t) (hu : t.Extends u) : e.Settled u :=
  h.imp id fun ⟨s, hl, hr⟩ => ⟨s, hu.knows hl, hu.knows hr⟩

theorem Settled.holds (h : e.Settled t) (hσ : t.Agrees σ) : e.Holds σ := by
  rcases h with h | ⟨s, hl, hr⟩
  · rw [Holds, h]
  · rw [Holds, hσ.under_eq hl, hσ.under_eq hr]

theorem Settled.not_stuck (h : e.Settled t) : e.isStuck t = false := by
  rw [← Bool.not_eq_true, isStuck_iff]
  rintro ⟨hne, ho, -⟩
  rcases h with h | ⟨s, hl, -⟩
  · exact hne h
  · exact hl.not_open ho

end Equation

/-- The assignment agrees with what the table knows, and the equations hold under it. -/
structure Solves (σ : Assignment) (t : Table) (es : List Equation) : Prop where
  agrees : t.Agrees σ
  holds : ∀ e ∈ es, e.Holds σ

theorem Solves.tail {σ : Assignment} {t : Table} {e : Equation} {es : List Equation}
    (h : Solves σ t (e :: es)) :
    Solves σ t es :=
  ⟨h.agrees, fun e' he => h.holds e' (List.mem_cons_of_mem e he)⟩

namespace Table

/-! ## One equation -/

/-- What a scan makes of the equation in front, by what the table knows of its two sides. -/
inductive Reading (t : Table) (e : Equation) : Prop
  /-- it is known to hold, and dropped -/
  | settled (covered : e.Covered t) (known : e.Settled t)
    (scan : ∀ rest, t.scan (e :: rest) = t.scan rest)
  /-- one side is known and the other one is open, and gets resolved -/
  | fill (v : RegionVar) (s : RegionSet) (isOpen : t.cell? v = some none)
      (sides : e.Determines t v s) (scan : ∀ rest, t.scan (e :: rest) =
        { (t.write v s).scan rest with resolved := ((t.write v s).scan rest).resolved + 1 })
  /-- both sides are open and different, and it is kept -/
  | stuck (stuck : e.isStuck t = true)
      (scan : ∀ rest, t.scan (e :: rest) = { t.scan rest with kept := e :: (t.scan rest).kept })
  /-- its sides are known to differ, and the scan stops -/
  | clash (a b : RegionSet) (ne : a ≠ b) (left : t.Knows e.left a) (right : t.Knows e.right b)
      (scan : ∀ rest, t.scan (e :: rest) = ⟨t, rest, 0, some (.mismatch a b)⟩)
  /-- a variable is foreign, and the scan stops -/
  | fault (f : Fault) (foreign : ¬ e.Covered t)
    (scan : ∀ rest, t.scan (e :: rest) = ⟨t, rest, 0, some (.fault f)⟩)

theorem resolve_of_open {t : Table} {v : RegionVar} (s : RegionSet) (h : t.cell? v = some none) :
    t.resolve v s = .ok (t.write v s) := by
  simp [resolve, h]

theorem reading_of_covered {t : Table} {e : Equation} (hl : t.Covers e.left)
    (hr : t.Covers e.right) :
    t.Reading e := by
  obtain ⟨l, r⟩ := e
  rcases hl.knows_or_open with ⟨a, hl⟩ | hl <;> rcases hr.knows_or_open with ⟨b, hr⟩ | hr
  · by_cases hab : a = b
    · subst hab
      exact .settled ⟨hl.covers, hr.covers⟩ (.inr ⟨a, hl, hr⟩) fun rest => by
        simp [scan, apply_of_knows hl, apply_of_knows hr]
    · exact .clash a b hab hl hr fun rest => by
        simp [scan, apply_of_knows hl, apply_of_knows hr, hab]
  · obtain ⟨v, rfl, hv⟩ := hr.eq_var
    exact .fill v a hv (.inl ⟨hl, rfl⟩) fun rest => by
      simp [scan, apply_of_knows hl, apply_of_open hr, resolve_of_open _ hv]
  · obtain ⟨v, rfl, hv⟩ := hl.eq_var
    exact .fill v b hv (.inr ⟨rfl, hr⟩) fun rest => by
      simp [scan, apply_of_knows hr, apply_of_open hl, resolve_of_open _ hv]
  · obtain ⟨v, rfl, hv⟩ := hl.eq_var
    obtain ⟨w, rfl, hw⟩ := hr.eq_var
    by_cases hvw : v = w
    · subst hvw
      exact .settled ⟨hl.covers, hr.covers⟩ (.inl rfl) fun rest => by simp [scan, apply_of_open hl]
    · exact .stuck (by simp [Equation.isStuck, hvw, hv, hw]) fun rest => by
        simp [scan, apply_of_open hl, apply_of_open hr, hvw]

/-- A table reads every equation in one of these ways. -/
theorem reading (t : Table) (e : Equation) : t.Reading e := by
  by_cases hl : t.Covers e.left
  · by_cases hr : t.Covers e.right
    · exact reading_of_covered hl hr
    · obtain ⟨f, hf⟩ := apply_of_not_covers hr
      obtain ⟨term, ht⟩ := apply_of_covers hl
      exact .fault f (fun h => hr h.2) fun rest => by simp [scan, ht, hf]
  · obtain ⟨f, hf⟩ := apply_of_not_covers hl
    exact .fault f (fun h => hl h.1) fun rest => by simp [scan, hf]

/-- An equation with one known side is known to hold once the open side has the known set. -/
theorem settled_write {t : Table} {e : Equation} {v : RegionVar} {s : RegionSet}
    (hv : t.cell? v = some none) (sides : e.Determines t v s) : e.Settled (t.write v s) := by
  have hext := extends_write s hv
  have hown := knows_write s hv
  rcases sides with ⟨hl, hr⟩ | ⟨hl, hr⟩
  · exact .inr ⟨s, hext.knows hl, hr ▸ hown⟩
  · exact .inr ⟨s, hl ▸ hown, hext.knows hr⟩

theorem covered_of_fill {t : Table} {e : Equation} {v : RegionVar} {s : RegionSet}
    (hv : t.cell? v = some none) (sides : e.Determines t v s) : e.Covered t := by
  have hopen : t.Open (.var v) := open_var.2 hv
  rcases sides with ⟨hl, hr⟩ | ⟨hl, hr⟩
  · exact ⟨hl.covers, hr ▸ hopen.covers⟩
  · exact ⟨hl ▸ hopen.covers, hr.covers⟩

/-- A solution gives an open side the set that the other side is known to be. -/
theorem Agrees.forced {t : Table} {e : Equation} {σ : Assignment} {v : RegionVar} {s : RegionSet}
    (hσ : t.Agrees σ) (he : e.Holds σ) (sides : e.Determines t v s) : σ v = s := by
  rcases sides with ⟨hl, hr⟩ | ⟨hl, hr⟩
  · rw [Equation.Holds, hσ.under_eq hl, hr] at he
    exact he.symm
  · rw [Equation.Holds, hσ.under_eq hr, hl] at he
    exact he

theorem not_quiet_of_fill {t : Table} {e : Equation} {v : RegionVar} {s : RegionSet}
    (hv : t.cell? v = some none) (sides : e.Determines t v s) : ¬ e.Quiet t := by
  have hopen : t.Open (.var v) := open_var.2 hv
  rintro ⟨-, (heq | ⟨s', hl', hr'⟩) | hstuck⟩
  · rcases sides with ⟨hl, hr⟩ | ⟨hl, hr⟩
    · exact hl.not_open (heq ▸ hr ▸ hopen)
    · exact hr.not_open (heq ▸ hl ▸ hopen)
  · rcases sides with ⟨-, hr⟩ | ⟨hl, -⟩
    · exact hr'.not_open (hr ▸ hopen)
    · exact hl'.not_open (hl ▸ hopen)
  · obtain ⟨-, hlo, hro⟩ := Equation.isStuck_iff.1 hstuck
    rcases sides with ⟨hl, -⟩ | ⟨-, hr⟩
    · exact hl.not_open hlo
    · exact hr.not_open hro

theorem not_quiet_of_clash {t : Table} {e : Equation} {a b : RegionSet} (ne : a ≠ b)
    (left : t.Knows e.left a) (right : t.Knows e.right b) : ¬ e.Quiet t := by
  rintro ⟨-, (heq | ⟨s, hl, hr⟩) | hstuck⟩
  · exact ne (left.unique (heq ▸ right))
  · exact ne ((left.unique hl).trans (hr.unique right))
  · exact left.not_open (Equation.isStuck_iff.1 hstuck).2.1

/-! ## One scan -/

/-- What is true of a scan of equations, whether it stops early or not. -/
structure Scanned (t : Table) (es : List Equation) (r : Scan) : Prop where
  extends_table : t.Extends r.table
  counts : r.table.unresolved + r.resolved = t.unresolved
  kept_sublist : r.kept.Sublist es
  agrees : ∀ σ, Solves σ t es → r.table.Agrees σ
  covers : r.error = none → ∀ e ∈ es, e.Covered t
  settles : r.error = none → ∀ e ∈ es, e ∈ r.kept ∨ e.Settled r.table
  restricts : r.error = none → ∀ u, r.table.Extends u →
    r.kept.filter (Equation.isStuck u) = es.filter (Equation.isStuck u)
  idle : r.error = none → r.resolved = 0 → r.table = t ∧ ∀ e ∈ r.kept, e.isStuck t = true
  stops : ∀ err, r.error = some err →
    (∃ a b, err = .mismatch a b ∧ ∀ σ, ¬ Solves σ t es) ∨
    ((∃ f, err = .fault f) ∧ ∃ e ∈ es, ¬ e.Covered t)

section
variable {t : Table} {e : Equation} {es : List Equation} {r : Scan}

theorem scanned_nil (t : Table) : t.Scanned [] ⟨t, [], 0, none⟩ where
  extends_table := .refl t
  counts := rfl
  kept_sublist := .refl []
  agrees _ h := h.agrees
  covers _ _ h := absurd h List.not_mem_nil
  settles _ _ h := absurd h List.not_mem_nil
  restricts _ _ _ := rfl
  idle _ _ := ⟨rfl, fun _ h => absurd h List.not_mem_nil⟩
  stops _ h := nomatch h

/-- Dropping an equation that the table knows to hold. -/
theorem Scanned.drop (h : t.Scanned es r) (covered : e.Covered t) (known : e.Settled t) :
    t.Scanned (e :: es) r where
  extends_table := h.extends_table
  counts := h.counts
  kept_sublist := h.kept_sublist.cons e
  agrees σ hs := h.agrees σ hs.tail
  covers hn := List.forall_mem_cons.2 ⟨covered, h.covers hn⟩
  settles hn e' he' := by
    rcases List.mem_cons.1 he' with rfl | he'
    · exact .inr (known.mono h.extends_table)
    · exact h.settles hn e' he'
  restricts hn u hu := by
    have hstuck := (known.mono (h.extends_table.trans hu)).not_stuck
    rw [List.filter_cons_of_neg (by simp [hstuck])]
    exact h.restricts hn u hu
  idle := h.idle
  stops err herr := by
    rcases h.stops err herr with ⟨a, b, he, hno⟩ | ⟨hf, e', he', hcov⟩
    · exact .inl ⟨a, b, he, fun σ hs => hno σ hs.tail⟩
    · exact .inr ⟨hf, e', List.mem_cons_of_mem e he', hcov⟩

/-- Resolving the open side of an equation, after which the table knows that it holds. -/
theorem Scanned.fill {v : RegionVar} {s : RegionSet} (isOpen : t.cell? v = some none)
    (sides : e.Determines t v s) (h : (t.write v s).Scanned es r) :
    t.Scanned (e :: es) { r with resolved := r.resolved + 1 } := by
  have hext := extends_write s isOpen
  have hcov : ∀ {e : Equation}, e.Covered (t.write v s) ↔ e.Covered t :=
    and_congr hext.covers_iff hext.covers_iff
  have hdrop := h.drop (hcov.2 (covered_of_fill isOpen sides)) (settled_write isOpen sides)
  have hsolves : ∀ σ, Solves σ t (e :: es) → Solves σ (t.write v s) (e :: es) := fun σ hs =>
    ⟨(agrees_write_iff isOpen).2 ⟨hs.agrees,
      hs.agrees.forced (hs.holds e (by simp)) sides⟩, hs.holds⟩
  refine ⟨hext.trans h.extends_table, ?_, hdrop.kept_sublist,
    fun σ hs => h.agrees σ (hsolves σ hs).tail,
    fun hn e he => hcov.1 (hdrop.covers hn e he), hdrop.settles, hdrop.restricts,
    fun _ h0 => absurd h0 (Nat.succ_ne_zero _), ?_⟩
  · have hcount := h.counts
    have hless := unresolved_write s isOpen
    show r.table.unresolved + (r.resolved + 1) = t.unresolved
    omega
  · intro err herr
    rcases hdrop.stops err herr with ⟨a, b, he, hno⟩ | ⟨hf, e', he', hforeign⟩
    · exact .inl ⟨a, b, he, fun σ hs => hno σ (hsolves σ hs)⟩
    · exact .inr ⟨hf, e', he', fun hc => hforeign (hcov.2 hc)⟩

/-- Keeping an equation between two open variables. -/
theorem Scanned.keep (h : t.Scanned es r) (stuck : e.isStuck t = true) :
    t.Scanned (e :: es) { r with kept := e :: r.kept } where
  extends_table := h.extends_table
  counts := h.counts
  kept_sublist := h.kept_sublist.cons_cons e
  agrees σ hs := h.agrees σ hs.tail
  covers hn := List.forall_mem_cons.2 ⟨Equation.covered_of_stuck stuck, h.covers hn⟩
  settles hn e' he' := by
    rcases List.mem_cons.1 he' with rfl | he'
    · exact .inl List.mem_cons_self
    · exact (h.settles hn e' he').imp_left (List.mem_cons_of_mem e)
  restricts hn u hu := by
    show (e :: r.kept).filter _ = _
    rw [List.filter_cons, List.filter_cons, h.restricts hn u hu]
  idle hn h0 := by
    refine ⟨(h.idle hn h0).1, fun e' he' => ?_⟩
    rcases List.mem_cons.1 he' with rfl | he'
    · exact stuck
    · exact (h.idle hn h0).2 e' he'
  stops err herr := by
    rcases h.stops err herr with ⟨a, b, he, hno⟩ | ⟨hf, e', he', hcov⟩
    · exact .inl ⟨a, b, he, fun σ hs => hno σ hs.tail⟩
    · exact .inr ⟨hf, e', List.mem_cons_of_mem e he', hcov⟩

/-- Stopping at the equation in front. -/
theorem scanned_stop {err : SolveError}
    (why : (∃ a b, err = .mismatch a b ∧ ∀ σ, ¬ Solves σ t (e :: es)) ∨
      ((∃ f, err = .fault f) ∧ ¬ e.Covered t)) :
    t.Scanned (e :: es) ⟨t, es, 0, some err⟩ where
  extends_table := .refl t
  counts := rfl
  kept_sublist := List.sublist_cons_self e es
  agrees _ hs := hs.agrees
  covers hn := nomatch hn
  settles hn := nomatch hn
  restricts hn := nomatch hn
  idle hn := nomatch hn
  stops err' herr := by
    cases herr
    exact why.imp_right fun ⟨hf, hcov⟩ => ⟨hf, e, List.mem_cons_self, hcov⟩

end

theorem scan_spec (t : Table) (es : List Equation) : t.Scanned es (t.scan es) := by
  induction es generalizing t with
  | nil => exact scanned_nil t
  | cons e es ih =>
    cases t.reading e with
    | settled covered known scan => rw [scan es]; exact (ih t).drop covered known
    | fill v s isOpen sides scan => rw [scan es]; exact (ih (t.write v s)).fill isOpen sides
    | stuck stuck scan => rw [scan es]; exact (ih t).keep stuck
    | clash a b ne left right scan =>
      rw [scan es]
      refine scanned_stop (.inl ⟨a, b, rfl, fun σ hs => ne ?_⟩)
      have he := hs.holds e List.mem_cons_self
      rwa [Equation.Holds, hs.agrees.under_eq left, hs.agrees.under_eq right] at he
    | fault f foreign scan => rw [scan es]; exact scanned_stop (.inr ⟨⟨f, rfl⟩, foreign⟩)

/-- A scan of quiet equations resolves nothing and keeps those that are stuck. -/
theorem scan_quiet {t : Table} {es : List Equation} (h : ∀ e ∈ es, e.Quiet t) :
    t.scan es = ⟨t, es.filter (Equation.isStuck t), 0, none⟩ := by
  induction es with
  | nil => rfl
  | cons e es ih =>
    have hrest := ih fun e' he' => h e' (List.mem_cons_of_mem e he')
    have hquiet := h e List.mem_cons_self
    cases t.reading e with
    | settled _ known scan =>
      rw [scan es, hrest, List.filter_cons_of_neg (by simp [known.not_stuck])]
    | stuck stuck scan => rw [scan es, hrest, List.filter_cons_of_pos stuck]
    | fill v s isOpen sides scan => exact absurd hquiet (not_quiet_of_fill isOpen sides)
    | clash a b ne left right scan => exact absurd hquiet (not_quiet_of_clash ne left right)
    | fault f foreign scan => exact absurd hquiet.1 foreign

/-- A scan that is not stopped keeps the solutions. -/
theorem Scanned.solves_iff {t : Table} {es : List Equation} {r : Scan} (h : t.Scanned es r)
    (hn : r.error = none) {σ : Assignment} : Solves σ r.table r.kept ↔ Solves σ t es := by
  constructor
  · intro hs
    refine ⟨h.extends_table.agrees hs.agrees, fun e he => ?_⟩
    rcases h.settles hn e he with hk | hk
    · exact hs.holds e hk
    · exact hk.holds hs.agrees
  · intro hs
    exact ⟨h.agrees σ hs, fun e he => hs.holds e (h.kept_sublist.subset he)⟩

end Table

namespace EquationStore

/-! ## Repeated scans -/

/-- The assignment solves the pending equations over the table. -/
def Solution (s : EquationStore) (σ : Assignment) : Prop := Solves σ s.table s.pending

/-- What scanning to the end makes of a store. -/
structure SolvedTo (s s' : EquationStore) : Prop where
  extends_table : s.table.Extends s'.table
  solution_iff : ∀ σ, s'.Solution σ ↔ s.Solution σ
  pending_eq : s'.pending = s.pending.filter (Equation.isStuck s'.table)
  covers : ∀ e ∈ s.pending, e.Covered s.table
  settles : ∀ e ∈ s.pending, e ∈ s'.pending ∨ e.Settled s'.table

/-- A scan that resolves nothing is the last one. -/
theorem solvedTo_idle {s : EquationStore} {r : Scan} (h : s.table.Scanned s.pending r)
    (hn : r.error = none) (h0 : r.resolved = 0) :
    s.SolvedTo { s with table := r.table, pending := r.kept } := by
  obtain ⟨htable, hstuck⟩ := h.idle hn h0
  refine ⟨h.extends_table, fun σ => h.solves_iff hn, ?_, h.covers hn, h.settles hn⟩
  show r.kept = s.pending.filter (Equation.isStuck r.table)
  rw [← h.restricts hn r.table (.refl _), htable]
  exact (List.filter_eq_self.2 hstuck).symm

/-- Scanning once and then to the end. -/
theorem SolvedTo.of_scan {s s₁ s' : EquationStore} {r : Scan} (h : s.table.Scanned s.pending r)
    (hn : r.error = none) (htable : s₁.table = r.table) (hpending : s₁.pending = r.kept)
    (h' : s₁.SolvedTo s') :
    s.SolvedTo s' := by
  have hext : r.table.Extends s'.table := htable ▸ h'.extends_table
  refine ⟨h.extends_table.trans hext, fun σ => ?_, ?_, h.covers hn, fun e he => ?_⟩
  · rw [h'.solution_iff, Solution, htable, hpending]
    exact h.solves_iff hn
  · rw [h'.pending_eq, hpending]
    exact h.restricts hn s'.table hext
  · rcases h.settles hn e he with hk | hk
    · exact h'.settles e (hpending ▸ hk)
    · exact .inr (hk.mono hext)

/-- What is true of scanning up to a number of times, however it ends. -/
structure Outcome (fuel : Nat) (s : EquationStore)
    (r : Except SolveError Unit × EquationStore) : Prop where
  extends_table : s.table.Extends r.2.table
  solved : r.1 = .ok () → s.table.unresolved < fuel → s.SolvedTo r.2
  stops : ∀ err, r.1 = .error err → (∃ a b, err = .mismatch a b ∧ ∀ σ, ¬ s.Solution σ) ∨
    ((∃ f, err = .fault f) ∧ ∃ e ∈ s.pending, ¬ e.Covered s.table)

theorem scans_spec (fuel : Nat) (s : EquationStore) : s.Outcome fuel (scans fuel s) := by
  induction fuel generalizing s with
  | zero => exact ⟨.refl _, fun _ h => absurd h (Nat.not_lt_zero _), nofun⟩
  | succ fuel ih =>
    have hscan := s.table.scan_spec s.pending
    simp only [scans]
    split
    · rename_i hempty
      have hnil : s.pending = [] := List.isEmpty_iff.1 hempty
      refine ⟨.refl _, fun _ _ => ⟨.refl _, fun _ => .rfl, by simp [hnil], by simp [hnil],
        by simp [hnil]⟩, nofun⟩
    · split
      · rename_i f herr
        refine ⟨hscan.extends_table, nofun, ?_⟩
        rintro err ⟨⟩
        exact hscan.stops _ herr
      · rename_i err _ herr
        refine ⟨hscan.extends_table, nofun, ?_⟩
        rintro err' ⟨⟩
        exact hscan.stops _ herr
      · rename_i hn
        split
        · rename_i h0
          exact ⟨hscan.extends_table, fun _ _ => solvedTo_idle hscan hn h0, nofun⟩
        · rename_i h0
          -- a scan that resolves a variable leaves fewer open ones, so the fuel stays ahead of them
          have hcount := hscan.counts
          have ih := ih { s with
            table := (s.table.scan s.pending).table
            pending := (s.table.scan s.pending).kept
            stats := { s.stats with
              passes := s.stats.passes + 1
              lastPasses := s.stats.lastPasses + 1
              resolved := s.stats.resolved + (s.table.scan s.pending).resolved } }
          refine ⟨hscan.extends_table.trans ih.extends_table, fun hok hfuel => ?_,
            fun err herr => ?_⟩
          · refine .of_scan hscan hn rfl rfl (ih.solved hok ?_)
            show (s.table.scan s.pending).table.unresolved < fuel
            omega
          · rcases ih.stops err herr with ⟨a, b, he, hno⟩ | ⟨hf, e, he, hcov⟩
            · exact .inl ⟨a, b, he, fun σ hs => hno σ ((hscan.solves_iff hn).2 hs)⟩
            · refine .inr ⟨hf, e, hscan.kept_sublist.subset he, fun hc => hcov ?_⟩
              exact ⟨hscan.extends_table.covers_iff.2 hc.1, hscan.extends_table.covers_iff.2 hc.2⟩

/-! ## Solving -/

theorem solve_outcome (s : EquationStore) : s.Outcome (s.table.unresolved + 1) s.solve := by
  have h := scans_spec (s.table.unresolved + 1)
    { s with stats := { s.stats with invocations := s.stats.invocations + 1, lastPasses := 0 } }
  exact ⟨h.extends_table, fun hok hfuel =>
    have hs := h.solved hok hfuel
    ⟨hs.extends_table, hs.solution_iff, hs.pending_eq, hs.covers, hs.settles⟩, h.stops⟩

theorem solvedTo_solve {s s' : EquationStore} (h : s.solve = (.ok (), s')) : s.SolvedTo s' := by
  have hs := (solve_outcome s).solved (by rw [h]) (Nat.lt_succ_self _)
  rwa [h] at hs

/-- Over equations between variables of its table, solving fails only because two sets differ. -/
theorem mismatch_of_covered {s : EquationStore} {err : SolveError}
    (hcov : ∀ e ∈ s.pending, e.Covered s.table) (herr : s.solve.1 = .error err) :
    ∃ a b, err = .mismatch a b := by
  rcases (solve_outcome s).stops err herr with ⟨a, b, hmismatch, -⟩ | ⟨-, e, he, hforeign⟩
  · exact ⟨a, b, hmismatch⟩
  · exact absurd (hcov e he) hforeign

/-- Solving quiet equations succeeds, resolves nothing, and keeps those that are stuck. -/
theorem solve_quiet {s : EquationStore} (h : ∀ e ∈ s.pending, e.Quiet s.table) :
    ∃ s', s.solve = (.ok (), s') ∧ s'.table = s.table ∧
      s'.pending = s.pending.filter (Equation.isStuck s.table) := by
  refine ⟨{ s with
    pending := s.pending.filter (Equation.isStuck s.table)
    stats := { s.stats with invocations := s.stats.invocations + 1, lastPasses := 0 } },
      ?_, rfl, rfl⟩
  by_cases hempty : s.pending.isEmpty = true
  · simp [solve, scans, List.isEmpty_iff.1 hempty]
  · simp only [solve, scans, hempty, Bool.false_eq_true, if_false, if_true, Table.scan_quiet h]

theorem SolvedTo.stuck {s s' : EquationStore} (h : s.SolvedTo s') :
    ∀ e ∈ s'.pending, e.isStuck s'.table = true := by
  intro e he
  rw [h.pending_eq] at he
  exact (List.mem_filter.1 he).2

/-- The assignment that has the known sets, and one and the same set for all open variables. -/
def filling (t : Table) (s : RegionSet) : Assignment := fun v => ((t.cell? v).join).getD s

theorem filling_solves {t : Table} {es : List Equation} (h : ∀ e ∈ es, e.isStuck t = true)
    (s : RegionSet) :
    Solves (filling t s) t es := by
  refine ⟨fun v r hv => by simp [filling, hv], fun e he => ?_⟩
  obtain ⟨-, hl, hr⟩ := Equation.isStuck_iff.1 (h e he)
  obtain ⟨v, hv, hcv⟩ := hl.eq_var
  obtain ⟨w, hw, hcw⟩ := hr.eq_var
  simp [Equation.Holds, hv, hw, Term.under, filling, hcv, hcw]

/-- A variable is known after scanning to the end iff all solutions give it one and the same set. -/
theorem SolvedTo.knows_iff_forced {s s' : EquationStore} (h : s.SolvedTo s') {v : RegionVar}
    (hv : s.table.Covers (.var v)) (r : RegionSet) :
    s'.table.Knows (.var v) r ↔ ∀ σ, s.Solution σ → σ v = r := by
  constructor
  · intro hk σ hσ
    exact ((h.solution_iff σ).2 hσ).agrees.under_eq hk
  · intro hall
    rcases (h.extends_table.covers_iff.2 hv).knows_or_open with ⟨r', hk⟩ | hopen
    · have hsol := filling_solves h.stuck ∅
      have hr' : filling s'.table ∅ v = r' := hsol.agrees.under_eq hk
      have hr : filling s'.table ∅ v = r := hall _ ((h.solution_iff _).1 hsol)
      rwa [← hr'.symm.trans hr]
    · -- an open variable may have any set, so nothing is forced
      have hcell := Table.open_var.1 hopen
      have h0 := hall _ ((h.solution_iff _).1 (filling_solves h.stuck ∅))
      have h1 := hall _ ((h.solution_iff _).1 (filling_solves h.stuck (.singleton 0)))
      simp only [filling, hcell, Option.join_some, Option.getD_none] at h0 h1
      exact absurd (h0.trans h1.symm) (by decide)

/-- Solving is sound, complete and exact: it succeeds iff there is a solution, and fails only with a
mismatch; after success a variable is known to be a set iff every solution gives it that set, and
the pending equations are, in order, those between two different variables that are still open. -/
theorem solve_exact (s : EquationStore) (hcov : ∀ e ∈ s.pending, e.Covered s.table) :
    (s.solve.1 = .ok () ↔ ∃ σ, s.Solution σ) ∧
    (∀ err, s.solve.1 = .error err → ∃ a b, err = .mismatch a b) ∧
    (s.solve.1 = .ok () →
      (∀ v, s.table.Covers (.var v) → ∀ r, s.solve.2.table.Knows (.var v) r ↔
        ∀ σ, s.Solution σ → σ v = r) ∧
      s.solve.2.pending = s.pending.filter (Equation.isStuck s.solve.2.table)) := by
  have hout := solve_outcome s
  have hstop : ∀ err, s.solve.1 = .error err → ∃ a b, err = .mismatch a b ∧
      ∀ σ, ¬ s.Solution σ := by
    intro err herr
    rcases hout.stops err herr with hmis | ⟨-, e, he, hforeign⟩
    · exact hmis
    · exact absurd (hcov e he) hforeign
  have hsolved : s.solve.1 = .ok () → s.SolvedTo s.solve.2 :=
    fun hok => hout.solved hok (Nat.lt_succ_self _)
  refine ⟨⟨fun hok => ?_, ?_⟩, fun err herr => ?_, fun hok => ⟨?_, (hsolved hok).pending_eq⟩⟩
  · have hs := hsolved hok
    exact ⟨_, (hs.solution_iff _).1 (filling_solves hs.stuck ∅)⟩
  · rintro ⟨σ, hσ⟩
    cases hres : s.solve.1 with
    | ok _ => rfl
    | error err =>
      obtain ⟨a, b, -, hno⟩ := hstop err hres
      exact absurd hσ (hno σ)
  · obtain ⟨a, b, he, -⟩ := hstop err herr
    exact ⟨a, b, he⟩
  · intro v hv r
    exact (hsolved hok).knows_iff_forced hv r

/-- A chain that is resolved from its end in two scans, beside two variables that nothing
determines. -/
def chained : EquationStore where
  table := ⟨[none, none, none, none]⟩
  pending := [⟨.var 1, .var 2⟩, ⟨.var 3, .var 4⟩, ⟨.set (.singleton 7), .var 2⟩]

theorem solve_exact_chained :
    (∀ e ∈ chained.pending, e.Covered chained.table) ∧ chained.solve.1 = .ok () ∧
    (∀ σ, chained.Solution σ → σ 1 = .singleton 7) ∧
    chained.solve.2.pending = [⟨.var 3, .var 4⟩] := by
  have hcov : ∀ e ∈ chained.pending, e.Covered chained.table := by
    simp [chained, Equation.Covered, Table.covers_set, Table.covers_var, Table.cell?]
  have hok : chained.solve.1 = .ok () := rfl
  obtain ⟨hforced, hpending⟩ := (solve_exact chained hcov).2.2 hok
  exact ⟨hcov, hok, (hforced 1 ⟨_, rfl⟩ _).1 rfl, hpending.trans rfl⟩

end EquationStore

end RegionCapture
