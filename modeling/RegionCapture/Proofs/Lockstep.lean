import RegionCapture.Proofs.Arrival

/-!
# Two checks in lockstep

Two checks whose inputs correspond are compared step by step: from corresponding states both steps
give corresponding values or both fail alike, and they leave corresponding states
(`Check.Lockstep`). Of the first check some failures may be excused, after which nothing is said
about the second one. Steps in lockstep can be put in sequence (`Check.Lockstep.bind`), and two
traversals are in lockstep as soon as they are in leaving every node (`Check.lockstep_visit`).
-/

namespace RegionCapture.Check

/-- What it means for two checks that they correspond: which states do, which failures do, and after
which failures of the first check the second one is not looked at. -/
structure Pairing where
  state : CheckState → CheckState → Prop
  failure : Failure → Failure → Prop
  excused : Failure → Prop := fun _ => False

variable {α β γ δ : Type} {P : Pairing} {V : α → β → Prop} {W : γ → δ → Prop}

/-- The outcomes of two steps correspond. -/
def Pairing.Aligned (P : Pairing) (V : α → β → Prop) :
    Except Failure α × CheckState → Except Failure β × CheckState → Prop
  | (.ok a, s), (.ok b, t) => V a b ∧ P.state s t
  | (.ok _, _), (.error _, _) => False
  | (.error e, s), (.error f, t) => P.excused e ∨ (P.failure e f ∧ P.state s t)
  | (.error e, _), (.ok _, _) => P.excused e

/-- From states that correspond, the outcomes of the two steps correspond. -/
def Lockstep (P : Pairing) (V : α → β → Prop) (x : Check α) (y : Check β) : Prop :=
  ∀ s t, P.state s t → P.Aligned V (x.outcome s) (y.outcome t)

/-! ## Steps in lockstep -/

theorem lockstep_pure {a : α} {b : β} (h : V a b) : Lockstep P V (pure a) (pure b) := by
  intro s t hst
  rw [outcome_pure, outcome_pure]
  exact ⟨h, hst⟩

theorem lockstep_reject {d d' : Diagnostic} (h : P.failure (.rejected d) (.rejected d')) :
    Lockstep P V (reject d) (reject d') := by
  intro s t hst
  simp only [reject, outcome_throw]
  exact .inr ⟨h, hst⟩

theorem lockstep_get : Lockstep P P.state get get := by
  intro s t hst
  rw [outcome_get, outcome_get]
  exact ⟨hst, hst⟩

theorem lockstep_modify {g g' : CheckState → CheckState}
    (h : ∀ s t, P.state s t → P.state (g s) (g' t)) :
    Lockstep P Eq (modify g) (modify g') := by
  intro s t hst
  rw [outcome_modify, outcome_modify]
  exact ⟨rfl, h s t hst⟩

theorem Lockstep.mono {V' : α → β → Prop} {x : Check α} {y : Check β} (h : Lockstep P V x y)
    (hV : ∀ a b, V a b → V' a b) : Lockstep P V' x y := by
  intro s t hst
  have haligned := h s t hst
  rcases hxs : x.outcome s with ⟨e | a, s₁⟩ <;> rcases hyt : y.outcome t with ⟨e' | b, t₁⟩ <;>
    rw [hxs, hyt] at haligned
  · exact haligned
  · exact haligned
  · exact haligned.elim
  · exact ⟨hV a b haligned.1, haligned.2⟩

theorem Lockstep.bind {x : Check α} {y : Check β} {f : α → Check γ} {g : β → Check δ}
    (hx : Lockstep P V x y) (hf : ∀ a b, V a b → Lockstep P W (f a) (g b)) :
    Lockstep P W (x >>= f) (y >>= g) := by
  intro s t hst
  have hfirst := hx s t hst
  rw [outcome_bind, outcome_bind]
  rcases hxs : x.outcome s with ⟨e | a, s₁⟩ <;> rcases hyt : y.outcome t with ⟨e' | b, t₁⟩ <;>
    rw [hxs, hyt] at hfirst
  · exact hfirst
  · -- the second step goes on alone, after a failure that is excused
    show P.Aligned W (.error e, s₁) ((g b).outcome t₁)
    rcases (g b).outcome t₁ with ⟨e' | c, t₂⟩
    · exact Or.inl hfirst
    · exact hfirst
  · exact hfirst.elim
  · exact hf a b hfirst.1 s₁ t₁ hfirst.2

theorem lockstep_ite {p q : Prop} [Decidable p] [Decidable q] (hpq : p ↔ q) {x x' : Check α}
    {y y' : Check β} (hx : Lockstep P V x y) (hx' : Lockstep P V x' y') :
    Lockstep P V (if p then x else x') (if q then y else y') := by
  by_cases hp : p
  · rw [if_pos hp, if_pos (hpq.1 hp)]
    exact hx
  · rw [if_neg hp, if_neg (mt hpq.2 hp)]
    exact hx'

/-! ## Traversals in lockstep -/

/-- How the input of one traversal becomes that of another. -/
structure Transport where
  symbol : SymbolId → SymbolId
  regions : RegionSet → RegionSet
  tree : Tree → Tree

namespace Transport

def scope (T : Transport) (s : Scope) : Scope :=
  ⟨T.regions s.static, T.regions s.dynamic, T.regions s.lexical⟩

def task (T : Transport) (c : Task) : Task := ⟨c.resume.map T.symbol, T.tree c.tree⟩

end Transport

/-- The trees below corresponding nodes correspond, and entering such nodes leads to corresponding
states. -/
structure Pairing.Carries (P : Pairing) (T : Transport) : Prop where
  hole : T.tree .hole = .hole
  present : ∀ {t : Tree}, t.isHole = false → (T.tree t).isHole = false
  nothing : T.regions ∅ = ∅
  tasks : ∀ t, (T.tree t).tasks = t.tasks.map T.task
  inner : ∀ scope t, (T.tree t).inner (T.scope scope) = T.scope (t.inner scope)
  entered : ∀ scope t {s s' : CheckState}, P.state s s' →
    P.state (entered scope t s) (entered (T.scope scope) (T.tree t) s')
  resumed : ∀ scope r {s s' : CheckState}, P.state s s' →
    P.state (resumed scope r s) (resumed (T.scope scope) (r.map T.symbol) s')

variable {T : Transport} {visit visit' : Scope → Tree → Check RegionSet}
  {leave leave' : Scope → List RegionSet → Tree → Check RegionSet}

/-- What is found in a tree and in the tree it becomes. -/
abbrev Transport.Found (T : Transport) (reg reg' : RegionSet) : Prop := reg' = T.regions reg

theorem lockstep_tasksBy (hP : P.Carries T) {scope : Scope} {ts : List Task}
    (h : ∀ c ∈ ts, Lockstep P T.Found (visit scope c.tree)
      (visit' (T.scope scope) (T.tree c.tree))) :
    Lockstep P (fun regs regs' => regs' = regs.map T.regions) (tasksBy visit scope ts)
      (tasksBy visit' (T.scope scope) (ts.map T.task)) := by
  induction ts with
  | nil => exact lockstep_pure rfl
  | cons c ts ih =>
    intro s t hst
    rw [List.map_cons, outcome_tasksBy_cons, outcome_tasksBy_cons]
    have hrest := ih fun d hd => h d (List.mem_cons_of_mem c hd)
    refine ((h c List.mem_cons_self).bind fun reg reg' hreg =>
      hrest.bind fun regs regs' hregs => ?_) _ _
        (hP.resumed scope c.resume hst)
    exact lockstep_pure (by rw [hreg, hregs, List.map_cons])

/-- Two traversals that leave corresponding nodes in lockstep go through corresponding trees in
lockstep. -/
theorem lockstep_visit (hP : P.Carries T) (o : Outline visit leave) (o' : Outline visit' leave')
    (hleave : ∀ scope regs t, Lockstep P T.Found (leave scope regs t)
      (leave' (T.scope scope) (regs.map T.regions) (T.tree t)))
    (scope : Scope) (t : Tree) :
    Lockstep P T.Found (visit scope t) (visit' (T.scope scope) (T.tree t)) := by
  induction t using Tree.induction_on_tasks generalizing scope with
  | step t ih =>
    cases hhole : t.isHole with
    | true =>
      rw [Tree.eq_hole hhole, hP.hole, o.hole, o'.hole]
      exact lockstep_pure hP.nothing.symm
    | false =>
      rw [o.node scope t hhole, o'.node _ _ (hP.present hhole), hP.tasks, hP.inner]
      have henter : Lockstep P Eq (annotate (t.entry scope))
          (annotate ((T.tree t).entry (T.scope scope))) :=
        lockstep_modify fun _ _ hst => hP.entered scope t hst
      have hbelow := lockstep_tasksBy hP fun c hc => ih c hc (t.inner scope)
      refine henter.bind fun _ _ _ => hbelow.bind fun regs regs' hregs => ?_
      rw [hregs]
      exact hleave scope regs t

end RegionCapture.Check
