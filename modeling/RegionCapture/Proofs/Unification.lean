import RegionCapture.Proofs.OrderIndependence
import RegionCapture.Proofs.Readable

/-!
# Unifying types of the same shape

Unifying two types of the same shape adds the equations between their free slots, in order. An
equation that a store has collected is quiet once solving has succeeded
(`EquationStore.Collects.quiet`): both sides are known to be the same set, or both are open. So from
then on the regions of the two types are the same, whatever else the store was asked for before it
was solved. Main statement `EquationStore.unify_same_regions`.
-/

namespace RegionCapture

/-! ## Quiet equations -/

theorem Equation.Quiet.knows_iff {t : Table} {e : Equation} {rs : RegionSet} (h : e.Quiet t) :
    t.Knows e.left rs ↔ t.Knows e.right rs := by
  rcases h.2 with (heq | ⟨rs', hl, hr⟩) | hstuck
  · rw [heq]
  · constructor
    · intro hk
      rwa [hk.unique hl]
    · intro hk
      rwa [hk.unique hr]
  · obtain ⟨-, hl, hr⟩ := Equation.isStuck_iff.1 hstuck
    exact iff_of_false (fun hk => hk.not_open hl) fun hk => hk.not_open hr

namespace Ty

variable {es : List Equation} {ts us : List Term}

theorem Paired.eq_map_zip (h : Paired es ts us) : es = (ts.zip us).map fun p => ⟨p.1, p.2⟩ := by
  rw [h.pairs_eq]
  exact List.map_uncurry_zip_eq_zipWith.symm

theorem Paired.map_left (h : Paired es ts us) : es.map Equation.left = ts := by
  rw [h.eq_map_zip, List.map_map]
  exact List.map_fst_zip (Nat.le_of_eq h.length_eq)

theorem Paired.map_right (h : Paired es ts us) : es.map Equation.right = us := by
  rw [h.eq_map_zip, List.map_map]
  exact List.map_snd_zip (Nat.le_of_eq h.length_eq.symm)

/-- Types of the same shape have slots that unifying pairs. -/
theorem exists_paired {t u : Ty} (hshape : t.SameShape u) (ht : t.Whole) (hu : u.Whole)
    (h : t.isAbsent = false) :
    ∃ ts us, t.slots = .ok ts ∧ u.slots = .ok us ∧ Paired (t.pairs u) ts us := by
  obtain ⟨ts, hts⟩ := exists_slots ht h
  obtain ⟨us, hus⟩ := exists_slots hu (hshape.isAbsent_eq ▸ h)
  exact ⟨ts, us, hts, hus, paired_slots hshape hts hus⟩

/-- The two sides of quiet equations have the same regions. -/
theorem exists_unionKnown_of_quiet {table : Table} (h : ∀ e ∈ es, e.Quiet table) :
    ∃ free, unionKnown table (es.map Equation.left) = .ok free ∧
      unionKnown table (es.map Equation.right) = .ok free := by
  have hleft : ∀ term ∈ es.map Equation.left, table.Covers term :=
    List.forall_mem_map.2 fun e he => (h e he).1.1
  have hright : ∀ term ∈ es.map Equation.right, table.Covers term :=
    List.forall_mem_map.2 fun e he => (h e he).1.2
  obtain ⟨free, hfree⟩ := exists_unionKnown hleft
  obtain ⟨free', hfree'⟩ := exists_unionKnown hright
  have hsame : free = free' := by
    refine RegionSet.ext_mem fun r => ?_
    rw [(unionKnown_spec hfree).2, (unionKnown_spec hfree').2]
    simp only [List.mem_map, exists_exists_and_eq_and]
    refine exists_congr fun e => and_congr_right fun he => ?_
    simp only [(h e he).knows_iff]
  exact ⟨free, hfree, hsame ▸ hfree'⟩

theorem exists_freeRegions_of_quiet {t u : Ty} {table : Table} (hshape : t.SameShape u)
    (ht : t.Whole) (hu : u.Whole) (h : ∀ e ∈ t.pairs u, e.Quiet table) :
    ∃ free, t.freeRegions table = .ok free ∧ u.freeRegions table = .ok free := by
  cases habsent : t.isAbsent with
  | true =>
    refine ⟨∅, ?_, ?_⟩
    · rw [freeRegions, habsent]
      rfl
    · rw [freeRegions, ← hshape.isAbsent_eq, habsent]
      rfl
  | false =>
    obtain ⟨ts, us, hts, hus, hpaired⟩ := exists_paired hshape ht hu habsent
    rw [← hpaired.map_left] at hts
    rw [← hpaired.map_right] at hus
    simp only [freeRegions_eq_ok hts, freeRegions_eq_ok hus]
    exact exists_unionKnown_of_quiet h

end Ty

namespace EquationStore

variable {table : Table} {es : List Equation} {s s' : EquationStore} {ops : List Operation}

/-! ## Solved stores -/

theorem collects_self (s : EquationStore) : Collects s.table s.pending s where
  extends_table := .refl _
  solution_iff _ := .rfl
  pending_subset _ he := he
  done _ he := .inl he
  restricts _ _ := rfl

/-- After solving, every equation collected so far is quiet. -/
theorem Collects.quiet (h : Collects table es s) (hs : s.SolvedTo s') :
    ∀ e ∈ es, e.Quiet s'.table := by
  intro e he
  have hend := h.solve hs
  rcases hend.done e he with hpending | ⟨hcov, hsettled⟩
  · have hstuck := hs.stuck e hpending
    exact ⟨Equation.covered_of_stuck hstuck, .inr hstuck⟩
  · exact ⟨⟨hend.extends_table.covers_iff.2 hcov.1, hend.extends_table.covers_iff.2 hcov.2⟩,
      .inl hsettled⟩

/-- The equations that are pending before a run which ends by solving are quiet after it. -/
theorem quiet_of_run (hrun : s.run (ops ++ [.solve]) = (.ok (), s')) :
    ∀ e ∈ s.pending, e.Quiet s'.table := by
  intro e he
  obtain ⟨s₁, hcollects, hsolved⟩ := (collects_self s).exists_solvedTo hrun
  exact hcollects.quiet hsolved e (List.mem_append_left _ he)

/-- Unifying types of the same shape adds exactly the equations between their free slots, one by one
and in order, and nothing if there are no types. Whatever else the store is asked for afterwards, as
long as nothing fails, both types have the same regions once it is solved. -/
theorem unify_same_regions (s : EquationStore) {t u : Ty} (hshape : t.SameShape u) (ht : t.Whole)
    (hu : u.Whole) :
    (t.isAbsent = true → s.unify t u = s) ∧
    (t.isAbsent = false → ∃ ts us, t.slots = .ok ts ∧ u.slots = .ok us ∧ ts.length = us.length ∧
      s.unify t u = { s with pending := s.pending ++ List.zipWith Equation.mk ts us }) ∧
    ∀ ops s', (s.unify t u).run (ops ++ [.solve]) = (.ok (), s') →
      ∃ free, t.freeRegions s'.table = .ok free ∧ u.freeRegions s'.table = .ok free := by
  refine ⟨fun habsent => ?_, fun habsent => ?_, fun ops s' hrun => ?_⟩
  · rw [unify, Ty.pairs_of_absent habsent, List.append_nil]
  · obtain ⟨ts, us, hts, hus, hpaired⟩ := Ty.exists_paired hshape ht hu habsent
    refine ⟨ts, us, hts, hus, hpaired.length_eq, ?_⟩
    rw [unify, hpaired.pairs_eq]
  · have hquiet : ∀ e ∈ t.pairs u, e.Quiet s'.table := fun e he =>
      quiet_of_run hrun e (List.mem_append_right _ he)
    exact Ty.exists_freeRegions_of_quiet hshape ht hu hquiet

/-- A function that returns a boxed function, with a variable in each slot. -/
def boxedOpen : Ty :=
  .fn [] [] (.app (.con "Box" "") [.fn [] [] .absent (some (.var 1))]) (some (.var 2))

/-- The same with parameters that have slots of their own, and with only the inner set known. -/
def boxedKnown : Ty :=
  .fn [.fn [] [] .absent (some (.var 9))] [.absent]
    (.app (.con "Box" "") [.fn [.con "Int" ""] [] .absent (some (.set (.singleton 3)))])
      (some (.var 1))

/-- The outer slots are resolved only in a second scan. -/
theorem unify_same_regions_boxed :
    boxedOpen.SameShape boxedKnown ∧ boxedOpen.Whole ∧ boxedKnown.Whole ∧
    ∃ s free, ({ table := ⟨[none, none]⟩ } : EquationStore).unify boxedOpen boxedKnown =
        { table := ⟨[none, none]⟩, pending := [⟨.var 2, .var 1⟩, ⟨.var 1, .set (.singleton 3)⟩] } ∧
      (({ table := ⟨[none, none]⟩ } : EquationStore).unify boxedOpen boxedKnown).run [.solve] =
        (.ok (), s) ∧
      s.stats.passes = 2 ∧ s.pending = [] ∧
      boxedOpen.freeRegions s.table = .ok free ∧ boxedKnown.freeRegions s.table = .ok free ∧
      free = .singleton 3 := by
  have hshape : boxedOpen.SameShape boxedKnown := by
    simp [boxedOpen, boxedKnown, Ty.SameShape, Ty.SameShapes]
  have hopen : boxedOpen.Whole := by simp [boxedOpen, Ty.Whole, Ty.Wholes, Ty.isAbsent]
  have hknown : boxedKnown.Whole := by simp [boxedKnown, Ty.Whole, Ty.Wholes, Ty.isAbsent]
  obtain ⟨-, hpairs, hregions⟩ := unify_same_regions { table := ⟨[none, none]⟩ } hshape hopen hknown
  obtain ⟨ts, us, hts, hus, -, hunify⟩ := hpairs rfl
  cases hts
  cases hus
  obtain ⟨free, hleft, hright⟩ := hregions [] _ rfl
  refine ⟨hshape, hopen, hknown, _, free, hunify, rfl, rfl, rfl, hleft, hright, ?_⟩
  cases hleft
  rfl

end EquationStore

end RegionCapture
