import RegionCapture.Proofs.OptionIndependence
import RegionCapture.Proofs.Stages

/-!
# Units without options

A unit without options is meant to go through the stages as with the default ones. The check and the
export treat it so, but a diagnostic is rendered in the colors that the options ask for, and without
options that is a fault. So the default options are in force as long as nothing is rendered: without
a place for diagnostics, and for units that are accepted. Main statement
`CompilationUnit.defaults_in_force_iff`; a unit that is rejected where diagnostics are wanted is
`CompilationUnit.unrendered_returning`.
-/

namespace RegionCapture.CompilationUnit

open StageM

/-- The unit with other options, or without any. -/
def withOptions (u : CompilationUnit) (o : Option Options) : CompilationUnit :=
  { u with options := o }

/-- Without options the unit goes through the stages without a fault, and with the same errors,
annotations and rendered diagnostics as with the default options. -/
def DefaultsInForce (stages : List Stage) (u : CompilationUnit) (w : World) : Prop :=
  ∃ v v' n n' w₁ w₂, (run stages (u.withOptions none)).outcome w = (.ok (v, n), w₁) ∧
    (run stages (u.withOptions (some .default))).outcome w = (.ok (v', n'), w₂) ∧
    v.errors = v'.errors ∧ v.annotations = v'.annotations ∧ v.diagnostics = v'.diagnostics

/-- What a stage makes of a unit with the default options, and of the unit without options: the
same, unless it reports an error that has to be rendered. -/
structure Follows (stage : Stage) (u : CompilationUnit) (w : World) (v : CompilationUnit)
    (w' : World) : Prop where
  defaults : (stage (u.withOptions (some .default))).outcome w =
    (.ok (v.withOptions (some .default)), w')
  same : u.diagnostics = none ∨ v.errors = u.errors →
    (stage (u.withOptions none)).outcome w = (.ok (v.withOptions none), w')
  fault : u.diagnostics ≠ none → v.errors ≠ u.errors →
    (stage (u.withOptions none)).outcome w = (.error .absentPart, w')
  errors : v.errors = u.errors ∨ v.errors ≠ []
  diagnostics : v.errors = [] → v.diagnostics = u.diagnostics
  sound : v.Sound

variable {u : CompilationUnit} {m : Module} {w : World}

/-! ## Rendering -/

/-- Without a place for diagnostics nothing is rendered. -/
theorem render_nowhere (h : u.diagnostics = none) (testing : Bool) (e : UnitError) :
    u.render testing e = .ok u := by
  simp only [render, h]

theorem exists_render (u : CompilationUnit) (o : Options) (testing : Bool) (e : UnitError) :
    ∃ sink, (u.withOptions (some o)).render testing e =
      .ok ({ u with diagnostics := sink }.withOptions (some o)) := by
  obtain ⟨symbols, table, module, options, diagnostics, request, runId, annotations, errors⟩ := u
  cases diagnostics with
  | none => exact ⟨none, rfl⟩
  | some sink =>
    simp only [render, withOptions]
    cases sink.write (e.render (Style.choose testing o.render.color.shown false)) with
    | error text => exact ⟨some sink, rfl⟩
    | ok written => exact ⟨some written, rfl⟩

theorem render_without_options (h : u.diagnostics ≠ none) (testing : Bool) (e : UnitError) :
    (u.withOptions none).render testing e = .error .absentPart := by
  cases hsink : u.diagnostics with
  | none => exact absurd hsink h
  | some sink => simp only [render, withOptions, hsink]

/-! ## The stages -/

theorem follows_of_idle {stage : Stage} (hu : u.Sound)
    (h : ∀ o, o = none ∨ o = some .default →
      (stage (u.withOptions o)).outcome w = (.ok (u.withOptions o), w)) :
      Follows stage u w u w where
  defaults := h _ (.inr rfl)
  same _ := h _ (.inl rfl)
  fault _ hne := absurd rfl hne
  errors := .inl rfl
  diagnostics _ := rfl
  sound := hu

/-- A rejection is rendered where the unit wants it, in the one case by the default options and in
the other by none. -/
theorem exists_follows_of_rejected {table : Table} {d : Diagnostic} {w' : World}
    (hafter : (u.rejected table d).Sound)
    (h : ∀ o, o = none ∨ o = some .default → (check (u.withOptions o)).outcome w =
      (((u.rejected table d).withOptions o).render w.testing (.rejected d), w')) :
      ∃ v, Follows check u w v w' := by
  have hdefault := h _ (.inr rfl)
  have hnone := h _ (.inl rfl)
  have herrors : (u.rejected table d).errors = u.errors ++ [.rejected d] := rfl
  by_cases hsink : u.diagnostics = none
  · have hnowhere : ∀ o, ((u.rejected table d).withOptions o).diagnostics = none := fun _ => hsink
    rw [render_nowhere (hnowhere _)] at hdefault hnone
    exact ⟨u.rejected table d, hdefault, fun _ => hnone, fun hne => absurd hsink hne,
      .inr (by simp [herrors]),
      fun he => absurd he (by simp [herrors]), hafter⟩
  · obtain ⟨sink, hrender⟩ := exists_render (u.rejected table d) .default w.testing (.rejected d)
    rw [hrender] at hdefault
    rw [render_without_options (u := u.rejected table d) hsink] at hnone
    exact ⟨{ u.rejected table d with diagnostics := sink }, hdefault,
      fun hsame => absurd (hsame.resolve_left hsink) (by simp [herrors]), fun _ _ => hnone,
      .inr (by simp [herrors]),
      fun he => absurd he (by simp [herrors]), hafter⟩

theorem exists_follows_check (hu : u.Sound) (w : World) : ∃ v w', Follows check u w v w' := by
  by_cases hidle : u.module = none ∨ u.errors ≠ []
  · exact ⟨u, w, follows_of_idle hu fun o _ => check_idle hidle⟩
  · obtain ⟨hmodule, herrors⟩ := not_or.1 hidle
    obtain ⟨m, hm⟩ := Option.ne_none_iff_exists'.1 hmodule
    rw [ne_eq, not_not] at herrors
    -- both checks are made under the default options
    have hcheck : ∀ o, o = none ∨ o = some .default → (check (u.withOptions o)).outcome w =
        ((u.withOptions o).concluded w (RegionCapture.check u.symbols .default (u.table.getD {}) m),
          { w with runs := w.runs + 1 }) := by
      rintro o (rfl | rfl) <;> exact check_of_module hm herrors
    have hafter : ∀ m', u.module = some m' → m'.WellTyped ((u.table.map fun _ =>
        (RegionCapture.check u.symbols .default (u.table.getD {}) m).2).getD {}) := by
      intro m' hm'
      cases hm.symm.trans hm'
      exact hu.after_check hm .default
    have hfault : ∀ f, (RegionCapture.check u.symbols .default (u.table.getD {}) m).1 ≠
        .error (.fault f) :=
      (hu m hm).check_ne_fault
    rcases hresult : RegionCapture.check u.symbols .default (u.table.getD {}) m
      with ⟨(d | f) | report, F⟩
    · rw [hresult] at hafter
      simp only [hresult] at hcheck
      obtain ⟨v, hfollows⟩ := exists_follows_of_rejected hafter hcheck
      exact ⟨v, _, hfollows⟩
    · exact absurd (congrArg Prod.fst hresult) (hfault f)
    · rw [hresult] at hafter
      simp only [hresult] at hcheck
      exact ⟨u.accepted (.ofNat (w.runs + 1)) F report, _, hcheck _ (.inr rfl),
        fun _ => hcheck _ (.inl rfl),
        fun _ hne => absurd rfl hne, .inl rfl, fun _ => rfl, hafter⟩

theorem follows_exportSignatures (hu : u.Sound) (w : World) : Follows exportSignatures u w u w := by
  refine follows_of_idle hu fun o ho => exportSignatures_idle fun o' ho' => ?_
  rcases ho with rfl | rfl
  · cases ho'
  · cases ho'
    rfl

/-! ## All stages -/

theorem exists_run {stages : List Stage}
    (hstages : ∀ stage ∈ stages, stage = check ∨ stage = exportSignatures) (hu : u.Sound)
    (w : World) : ∃ (v : CompilationUnit) (n : Nat) (w' : World),
    (run stages (u.withOptions (some .default))).outcome w =
      (.ok (v.withOptions (some .default), n), w') ∧
    (u.diagnostics = none ∨ v.errors = u.errors →
      (run stages (u.withOptions none)).outcome w = (.ok (v.withOptions none, n), w')) ∧
    (u.diagnostics ≠ none → v.errors ≠ u.errors →
      (run stages (u.withOptions none)).outcome w = (.error .absentPart, w')) := by
  induction stages generalizing u w with
  | nil => exact ⟨u, 0, w, rfl, fun _ => rfl, fun _ hne => absurd rfl hne⟩
  | cons stage stages ih =>
    obtain ⟨hstage, hstages⟩ := List.forall_mem_cons.1 hstages
    have hfollows : ∃ v w', Follows stage u w v w' := by
      rcases hstage with rfl | rfl
      · exact exists_follows_check hu w
      · exact ⟨u, w, follows_exportSignatures hu w⟩
    obtain ⟨v, w', hfollows⟩ := hfollows
    have hfault : u.diagnostics ≠ none → v.errors ≠ u.errors →
        (run (stage :: stages) (u.withOptions none)).outcome w = (.error .absentPart, w') :=
      fun hsink hne =>
      outcome_run_of_fault (hfollows.fault hsink hne)
    by_cases hon : v.errors = []
    · -- no error so far, so the other stages go on from the same unit
      have herrors : v.errors = u.errors := hfollows.errors.resolve_right fun hne => hne hon
      obtain ⟨v', n, w'', hdefault, hsame, hstop⟩ := ih hstages hfollows.sound w'
      rw [hfollows.diagnostics hon, herrors] at hsame hstop
      refine ⟨v', n + 1, w'', ?_, fun h => ?_, fun hsink hne => ?_⟩
      · rw [outcome_run_of_passed hfollows.defaults hon, hdefault]
        rfl
      · rw [outcome_run_of_passed (hfollows.same (.inr herrors)) hon, hsame h]
        rfl
      · rw [outcome_run_of_passed (hfollows.same (.inr herrors)) hon, hstop hsink hne]
        rfl
    · exact ⟨v, 1, w', outcome_run_of_failed hfollows.defaults hon,
        fun h => outcome_run_of_failed (hfollows.same h) hon, hfault⟩

/-- For a unit whose types can be read the default options are in force exactly if it has no place
for diagnostics or the stages add no error under the default options. If they are not in force, the
unit ends in a fault. -/
theorem defaults_in_force_iff {stages : List Stage}
    (hstages : ∀ stage ∈ stages, stage = check ∨ stage = exportSignatures) (hu : u.Sound)
    (w : World) :
    (DefaultsInForce stages u w ↔ u.diagnostics = none ∨ ∃ v n w',
      (run stages (u.withOptions (some .default))).outcome w = (.ok (v, n), w') ∧
      v.errors = u.errors) ∧
    (¬ DefaultsInForce stages u w →
      ((run stages (u.withOptions none)).outcome w).1 = .error .absentPart) := by
  obtain ⟨v, n, w', hdefault, hsame, hfault⟩ := exists_run hstages hu w
  have hforce : u.diagnostics = none ∨ v.errors = u.errors → DefaultsInForce stages u w := fun h =>
    ⟨_, _, n, n, w', w', hsame h, hdefault, rfl, rfl, rfl⟩
  have hstop : ¬ (u.diagnostics = none ∨ v.errors = u.errors) →
      (run stages (u.withOptions none)).outcome w = (.error .absentPart, w') := by
    intro h
    obtain ⟨hsink, herrors⟩ := not_or.1 h
    exact hfault hsink herrors
  refine ⟨⟨?_, ?_⟩, fun h => congrArg Prod.fst (hstop fun hsame => h (hforce hsame))⟩
  · rintro ⟨v₁, v₂, n₁, n₂, w₁, w₂, hnone, -⟩
    by_cases h : u.diagnostics = none ∨ v.errors = u.errors
    · exact h.imp id fun herrors => ⟨_, n, w', hdefault, herrors⟩
    · rw [hstop h] at hnone
      cases hnone
  · rintro (hsink | ⟨v₁, n₁, w₁, hrun, herrors⟩)
    · exact hforce (.inl hsink)
    · rw [hdefault] at hrun
      cases hrun
      exact hforce (.inr herrors)

/-- A unit that is rejected. -/
def returningUnit : CompilationUnit where
  symbols := ⟨[{ name := "h" }, { name := "g", kind := .capability },
    { name := "<lambda>", kind := .lambda }]⟩
  module := some Module.returning

theorem sound_returningUnit : returningUnit.Sound := by
  rintro m ⟨⟩
  exact Module.wellTyped_returning

/-- The rejection stays unrendered if nowhere is a place for it, and ends in a fault if there is
one. -/
theorem defaults_in_force_iff_returning :
    let stages : List Stage := [check, exportSignatures]
    let rendering : CompilationUnit := { returningUnit with diagnostics := some (.buffer "") }
    (∀ stage ∈ stages, stage = check ∨ stage = exportSignatures) ∧ returningUnit.Sound ∧
      DefaultsInForce stages returningUnit {} ∧
      ((run stages (rendering.withOptions none)).outcome {}).1 = .error .absentPart := by
  intro stages rendering
  have hstages : ∀ stage ∈ stages, stage = check ∨ stage = exportSignatures := by simp [stages]
  have hrejected : (((run stages (rendering.withOptions (some .default))).outcome {}).1.toOption.map
      fun r => r.1.errors.length) = some 1 := by decide +kernel
  refine ⟨hstages, sound_returningUnit,
    (defaults_in_force_iff hstages sound_returningUnit {}).1.2 (.inl rfl), ?_⟩
  have hrendering : rendering.Sound := sound_returningUnit
  refine (defaults_in_force_iff hstages hrendering {}).2 fun hforce => ?_
  rcases (defaults_in_force_iff hstages hrendering {}).1.1 hforce with hsink |
    ⟨v, n, w', hrun, herrors⟩
  · cases hsink
  · rw [hrun] at hrejected
    simp [Except.toOption, herrors, rendering, returningUnit] at hrejected

/-- Without options a rejection that has to be rendered ends in a fault, and with the default
options it does not. -/
theorem unrendered_returning :
    ¬ DefaultsInForce [check, exportSignatures] { returningUnit with
      diagnostics := some (.buffer "") } {} := by
  rintro ⟨v, v', n, n', w₁, w₂, hnone, -⟩
  have hfault : ((run [check, exportSignatures]
      (withOptions { returningUnit with diagnostics := some (.buffer "") } none)).outcome
        {}).1.isOk = false := by
    decide +kernel
  rw [hnone] at hfault
  cases hfault

end RegionCapture.CompilationUnit
