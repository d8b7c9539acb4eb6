import RegionCapture.Region.Table

/-!
# What a table knows

A table knows a term if the term is a set or a variable whose cell is written, and a variable of the
table that it does not know is open. Cells are written once, so tables are ordered by what they know
(`Table.Extends`): whatever a table knows, every later table knows too (`Table.Extends.knows`), and
both hold the same variables (`Table.Extends.covers_iff`).
-/

namespace RegionCapture.Table

/-- The table knows that a term stands for a set. -/
def Knows (t : Table) (term : Term) (s : RegionSet) : Prop := t.concrete term = .ok (some s)

/-- The term is a variable of the table whose cell is not written. -/
def Open (t : Table) (term : Term) : Prop := t.concrete term = .ok none

/-- The term has no variable of another table. -/
def Covers (t : Table) (term : Term) : Prop := ∃ known, t.concrete term = .ok known

/-- The second table holds the same variables and knows at least what the first one knows. -/
structure Extends (t u : Table) : Prop where
  size_eq : u.size = t.size
  keeps : ∀ v s, t.cell? v = some (some s) → u.cell? v = some (some s)

variable {t u w : Table} {term : Term} {v : RegionVar} {s s' : RegionSet} {known : Option RegionSet}

/-! ## Reading terms -/

@[simp] theorem knows_set : t.Knows (.set s) s' ↔ s = s' := by
  simp [Knows, concrete]

theorem lookup_eq_ok : t.lookup v = .ok known ↔ t.cell? v = some known := by
  unfold lookup
  cases t.cell? v <;> simp

theorem knows_var : t.Knows (.var v) s ↔ t.cell? v = some (some s) := lookup_eq_ok

theorem open_var : t.Open (.var v) ↔ t.cell? v = some none := lookup_eq_ok

theorem not_open_set : ¬ t.Open (.set s) := by
  simp [Open, concrete]

theorem covers_set : t.Covers (.set s) := ⟨some s, rfl⟩

theorem covers_var : t.Covers (.var v) ↔ ∃ c, t.cell? v = some c :=
  exists_congr fun _ => lookup_eq_ok

theorem Knows.covers (h : t.Knows term s) : t.Covers term := ⟨_, h⟩

theorem Open.covers (h : t.Open term) : t.Covers term := ⟨_, h⟩

theorem Covers.knows_or_open (h : t.Covers term) : (∃ s, t.Knows term s) ∨ t.Open term := by
  obtain ⟨_ | s, hk⟩ := h
  · exact .inr hk
  · exact .inl ⟨s, hk⟩

theorem Knows.unique (h : t.Knows term s) (h' : t.Knows term s') : s = s' := by
  rw [Knows, h] at h'
  simpa using h'

theorem Knows.not_open (h : t.Knows term s) : ¬ t.Open term := by
  intro ho
  rw [Open, h] at ho
  simp at ho

theorem Open.eq_var (h : t.Open term) : ∃ v, term = .var v ∧ t.cell? v = some none := by
  cases term with
  | set s => exact absurd h not_open_set
  | var v => exact ⟨v, rfl, open_var.1 h⟩

theorem apply_of_knows (h : t.Knows term s) : t.apply term = .ok (.set s) := by
  cases term with
  | set s' => rw [knows_set.1 h]; rfl
  | var v =>
    have hl : t.lookup v = .ok (some s) := h
    simp [apply, hl, bind, Except.bind, pure, Except.pure]

theorem apply_of_open (h : t.Open (.var v)) : t.apply (.var v) = .ok (.var v) := by
  have hl : t.lookup v = .ok none := h
  simp [apply, hl, bind, Except.bind, pure, Except.pure]

theorem apply_of_covers (h : t.Covers term) : ∃ seen, t.apply term = .ok seen := by
  rcases h.knows_or_open with ⟨s, hk⟩ | ho
  · exact ⟨_, apply_of_knows hk⟩
  · obtain ⟨v, rfl, -⟩ := ho.eq_var
    exact ⟨_, apply_of_open ho⟩

theorem apply_of_not_covers (h : ¬ t.Covers term) : ∃ f, t.apply term = .error f := by
  cases term with
  | set s => exact absurd covers_set h
  | var v =>
    cases hl : t.lookup v with
    | ok known => exact absurd ⟨known, hl⟩ h
    | error f => exact ⟨f, by simp [apply, hl, bind, Except.bind]⟩

/-- Every variable is numbered between one and the size of its table. -/
theorem cell?_isSome_iff : (∃ c, t.cell? v = some c) ↔ 0 < v ∧ v ≤ t.size := by
  cases v with
  | zero => simp [cell?]
  | succ n =>
    have hn : (∃ c, t.cells[n]? = some c) ↔ n < t.cells.length := by
      simp only [List.getElem?_eq_some_iff]
      constructor
      · rintro ⟨_, h, -⟩
        exact h
      · exact fun h => ⟨_, h, rfl⟩
    simpa [cell?, size, Nat.succ_le_iff] using hn

/-! ## The order of knowledge -/

theorem Extends.refl (t : Table) : t.Extends t := ⟨rfl, fun _ _ h => h⟩

theorem Extends.trans (h : t.Extends u) (h' : u.Extends w) : t.Extends w :=
  ⟨h'.size_eq.trans h.size_eq, fun v s hv => h'.keeps v s (h.keeps v s hv)⟩

/-- Knowledge is never lost. -/
theorem Extends.knows (h : t.Extends u) (hk : t.Knows term s) : u.Knows term s := by
  cases term with
  | set s' => simpa using hk
  | var v => exact knows_var.2 (h.keeps v s (knows_var.1 hk))

theorem Extends.covers_iff (h : t.Extends u) : u.Covers term ↔ t.Covers term := by
  cases term with
  | set s => exact iff_of_true covers_set covers_set
  | var v => rw [covers_var, covers_var, cell?_isSome_iff, cell?_isSome_iff, h.size_eq]

theorem Extends.open_of_open (h : t.Extends u) (ho : u.Open term) : t.Open term := by
  rcases (h.covers_iff.1 ho.covers).knows_or_open with ⟨s, hk⟩ | hopen
  · exact absurd ho (h.knows hk).not_open
  · exact hopen

/-- Tables that know the same are equal. -/
theorem Extends.antisymm (h : t.Extends u) (h' : u.Extends t) : t = u := by
  have hcell : ∀ v, t.cell? v = u.cell? v := by
    intro v
    by_cases hcov : t.Covers (.var v)
    · rcases hcov.knows_or_open with ⟨s, hs⟩ | hopen
      · rw [knows_var.1 hs, h.keeps v s (knows_var.1 hs)]
      · rw [open_var.1 hopen, open_var.1 (h'.open_of_open hopen)]
    · have hcov' : ¬ u.Covers (.var v) := fun hu => hcov (h.covers_iff.1 hu)
      rw [covers_var, ← Option.isSome_iff_exists, Bool.not_eq_true, Option.isSome_eq_false_iff,
        Option.isNone_iff_eq_none] at hcov hcov'
      rw [hcov, hcov']
  obtain ⟨cells⟩ := t
  obtain ⟨cells'⟩ := u
  have hcells : cells = cells' := List.ext_getElem? fun n => hcell (n + 1)
  rw [hcells]

/-! ## Writing an open cell -/

theorem ne_zero_of_cell? (h : t.cell? v = some known) : v ≠ 0 := by
  rintro rfl
  simp [cell?] at h

theorem extends_write (s : RegionSet) (h : t.cell? v = some none) : t.Extends (t.write v s) := by
  refine ⟨size_write t v s, fun w r hw => ?_⟩
  have hne : w ≠ v := by
    rintro rfl
    rw [h] at hw
    cases hw
  rw [cell?_write_of_ne s hne (ne_zero_of_cell? h), hw]

theorem knows_write (s : RegionSet) (h : t.cell? v = some none) : (t.write v s).Knows (.var v) s :=
  knows_var.2 (cell?_write_self s h)

/-- Writing an open cell leaves one open variable less. -/
theorem unresolved_write (s : RegionSet) (h : t.cell? v = some none) :
    (t.write v s).unresolved + 1 = t.unresolved := by
  cases v with
  | zero => simp [cell?] at h
  | succ n =>
    obtain ⟨hn, hv⟩ := List.getElem?_eq_some_iff.1 (show t.cells[n]? = some none from h)
    have hpos : 0 < t.cells.countP Option.isNone :=
      List.countP_pos_iff.2 ⟨none, hv ▸ List.getElem_mem hn, rfl⟩
    show (t.cells.set n (some s)).countP Option.isNone + 1 = t.cells.countP Option.isNone
    rw [List.countP_set hn, hv]
    show t.cells.countP Option.isNone - 1 + 0 + 1 = t.cells.countP Option.isNone
    omega

end RegionCapture.Table
