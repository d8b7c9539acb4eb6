import RegionCapture.Proofs.Slots
import RegionCapture.Proofs.Visit

/-!
# Judging a tree over a fixed table

Over a table in which nothing changes any more, the regions of a tree and the obligations at its
nodes can be judged without solving anything (`Check.Judged`). A run whose visits all agree with the
table is judged as it ran (`Check.Visit.judged`). Conversely the check, started over a table that
decides everything it is asked (`Tree.Decided`), goes through with whatever is judged there and
leaves the table as it is (`Check.yields_of_judged`).
-/

namespace RegionCapture

/-- The regions that a type mentions in the slots whose sets are known. -/
def Ty.regionsIn (F : Table) (type : Ty) : RegionSet := (type.freeRegions F).toOption.getD ∅

namespace Equation

variable {F : Table} {e : Equation} {s : RegionSubst}

/-- The sides are both known or both open. -/
def Balanced (F : Table) (e : Equation) : Prop :=
  (∃ sa sb, F.Knows e.left sa ∧ F.Knows e.right sb) ∨ (F.Open e.left ∧ F.Open e.right)

theorem quiet_of_stuck (h : e.isStuck F = true) : e.Quiet F := ⟨covered_of_stuck h, .inr h⟩

/-- A balanced equation between equal sides, as far as they are known, leaves nothing to do. -/
theorem Balanced.quiet_substituted (h : e.Balanced F)
    (heq : ∀ sa sb, F.Knows e.left sa → F.Knows e.right sb → sa = s.onSet sb) :
    (e.substituted s F).Quiet F := by
  rcases h with ⟨sa, sb, hl, hr⟩ | ⟨hl, hr⟩
  · have hleft : F.Knows (e.substituted s F).left sa := by rwa [left_substituted]
    have hright : F.Knows (e.substituted s F).right sa := heq sa sb hl hr ▸ knows_substituted hr
    exact ⟨⟨hleft.covers, hright.covers⟩, .inl (.inr ⟨sa, hleft, hright⟩)⟩
  · rw [substituted_of_open hr]
    refine ⟨⟨hl.covers, hr.covers⟩, ?_⟩
    by_cases hsame : e.left = e.right
    · exact .inl (.inl hsame)
    · exact .inr (isStuck_iff.2 ⟨hsame, hl, hr⟩)

end Equation

namespace Tree

/-- What must hold at a node with the given regions, over a fixed table: a result type avoids what
must not leave, the slot of a function value bounds its regions, and the slots of a call are those
of the callee with its blocks replaced. -/
def Sound (env : CheckEnv) (F : Table) (regs : List RegionSet) (reg : RegionSet) : Tree → Prop
  | function _ symbol _ blocks result _ =>
    result.Avoids F ((Check.capabilities env blocks).add (.ofSymbol symbol))
  | lambda _ symbol _ blocks result slot _ =>
    (∀ term expected, slot = some term → F.Knows term expected → ∀ r ∈ reg, r ∈ expected) ∧
      result.Avoids F ((Check.capabilities env blocks).add (.ofSymbol symbol))
  | handle _ _ handlers type => type.Avoids F (regionsOf (handlers.map Handler.capability))
  | call _ callee args _ type => ∀ sig, Check.calleeSignature env callee = some sig →
    ∀ e ∈ type.pairs sig.result, ∀ sa sb, F.Knows e.left sa → F.Knows e.right sb →
      sa = (sig.passing (regs.drop (args.length + 1))).onSet sb
  | _ => True

/-- The annotations after the symbol that a node defines is given its regions, over a fixed
table. -/
def define (F : Table) (reg : RegionSet) : Tree → Annotations → Annotations
  | function _ symbol _ _ _ _, a => a.annotateSymbol symbol reg
  | lambda _ symbol _ _ _ _ _, a => a.annotateSymbol symbol reg
  | binding _ symbol type _, a => a.annotateSymbol symbol (type.regionsIn F)
  | _, a => a

/-- The table has an answer to what a node asks: the slot of a function value is known, the type of
a binding can be read, and the slots of a call and those of the callee that correspond to them are
known or open together. -/
def Decided (env : CheckEnv) (F : Table) : Tree → Prop
  | lambda _ _ _ _ _ slot _ => ∀ term, slot = some term → ∃ s, F.Knows term s
  | binding _ _ type _ => ∃ own, type.freeRegions F = .ok own
  | call _ callee _ blockArgs type => ∀ sig, Check.calleeSignature env callee = some sig →
    (type.isAbsent || sig.result.isAbsent) = false →
      (∀ e ∈ type.pairs sig.result, e.Balanced F) ∧
      ∀ regs, regs.length = blockArgs.length →
      ∃ result, sig.result.subst F (sig.passing regs) = .ok result
  | _ => True

end Tree

namespace Check

/-- The annotations with which a tree below a node is judged. -/
def resumedWith (scope : Scope) (resume : Option SymbolId) (a : Annotations) : Annotations :=
  resume.elim a fun r => a.annotateSymbol r scope.dynamic

mutual
/-- The tree has these regions over the table, and judging it turns the first annotations into the
second. -/
inductive Judged (env : CheckEnv) (F : Table) :
    Scope → Tree → Annotations → RegionSet → Annotations → Prop
  | hole (scope : Scope) (a : Annotations) : Judged env F scope .hole a ∅ a
  | node {scope : Scope} {t : Tree} {a a' : Annotations} {regs : List RegionSet} {reg : RegionSet}
    (present : t.isHole = false)
    (below : JudgedAll env F (t.inner scope) t.tasks (t.entry scope a) regs a')
    (region : reg = t.region regs (t.markScope a'))
    (verified : env.options.verifyScopes = true → ∀ r ∈ reg, r ∈ scope.lexical)
    (sound : t.Sound env F regs reg) :
    Judged env F scope t a reg ((t.define F reg (t.markScope a')).annotateNode t.id reg)

/-- The trees have these regions, one after the other. -/
inductive JudgedAll (env : CheckEnv) (F : Table) :
    Scope → List Task → Annotations → List RegionSet → Annotations → Prop
  | nil (scope : Scope) (a : Annotations) : JudgedAll env F scope [] a [] a
  | cons {scope : Scope} {c : Task} {ts : List Task} {a a₁ a' : Annotations} {reg : RegionSet}
    {regs : List RegionSet} (first : Judged env F scope c.tree
    (resumedWith scope c.resume a) reg a₁)
    (rest : JudgedAll env F scope ts a₁ regs a') :
    JudgedAll env F scope (c :: ts) a (reg :: regs) a'
end

theorem JudgedAll.length_eq {env : CheckEnv} {F : Table} {scope : Scope} {ts : List Task}
    {a a' : Annotations} {regs : List RegionSet} (h : JudgedAll env F scope ts a regs a') :
    regs.length = ts.length := by
  induction ts generalizing a regs with
  | nil => cases h; rfl
  | cons c ts ih =>
    cases h with
    | cons first rest => simp [ih rest]

/-! ## From runs to judgements -/

namespace Visit

variable {env : CheckEnv} {F : Table}

/-- The visit did what the table asks for. -/
structure Steady (F : Table) (v : Visit env) : Prop where
  sound : v.tree.Sound env F v.regs v.region
  defined : v.after.annotations =
    (v.tree.define F v.region (v.tree.markScope v.found.annotations)).annotateNode
    v.tree.id v.region

/-- The trees below a node are judged one after the other, if their visits are judged. -/
theorem judgedAll (v : Visit env)
    (ih :
      ∀ i w, v.Child i w → Judged env F w.scope w.tree w.before.annotations w.region
        w.after.annotations)
    {ts us : List Task} {regs regs' : List RegionSet} {s : CheckState}
    (hsplit : v.tree.tasks = ts ++ us)
    (hearlier :
      Yields (tasks env (v.tree.inner v.scope) ts) (entered v.scope v.tree v.before) regs s)
    (hlater : Yields (tasks env (v.tree.inner v.scope) us) s regs' v.found)
    (hregs : v.regs = regs ++ regs') :
    JudgedAll env F (v.tree.inner v.scope) us s.annotations regs' v.found.annotations := by
  induction us generalizing ts regs regs' s with
  | nil =>
    obtain ⟨rfl, rfl⟩ := yields_tasks_nil.1 hlater
    exact .nil _ _
  | cons c us ihus =>
    obtain ⟨reg, s₁, rest, hnode, hrest, rfl⟩ := yields_tasks_cons.1 hlater
    have hprefix : Yields (tasks env (v.tree.inner v.scope) (ts ++ [c]))
        (entered v.scope v.tree v.before)
        (regs ++ [reg]) s₁ :=
      yields_tasks_append.2 ⟨regs, s, [reg], hearlier,
        yields_tasks_cons.2 ⟨reg, s₁, [], hnode, yields_tasks_nil.2 ⟨rfl, rfl⟩, rfl⟩, rfl⟩
    refine .cons ?_ (ihus (by simpa using hsplit) hprefix hrest (by simpa using hregs))
    cases hhole : c.tree.isHole with
    | true =>
      have htree := Tree.eq_hole hhole
      rw [htree] at hnode ⊢
      obtain ⟨rfl, rfl⟩ := yields_hole.1 hnode
      exact .hole _ _
    | false =>
      obtain ⟨w, hscope, htree, hbefore, rfl, rfl⟩ := exists_of_yields hhole hnode
      have hw := ih _ w ⟨ts, us, c.resume, regs, rest, s, rfl, htree ▸ hsplit, hscope,
        hscope ▸ hearlier,
        hscope ▸ hbefore, hscope ▸ hrest, hregs⟩
      rw [hscope, htree, hbefore] at hw
      exact hw

/-- A run whose visits all did what the table asks for is judged over the table as it ran. -/
theorem judged (v : Visit env) (h : ∀ w, v.Within w → w.Steady F) :
    Judged env F v.scope v.tree v.before.annotations v.region v.after.annotations := by
  -- the visits of the trees below are visits of their own, so the induction is over the tree for
  -- all visits of it
  suffices hall : ∀ t, ∀ v : Visit env, v.tree = t → (∀ w, v.Within w → w.Steady F) →
      Judged env F v.scope v.tree v.before.annotations v.region v.after.annotations
      from hall _ v rfl h
  intro t
  induction t using Tree.induction_on_tasks with
  | step t ih =>
    rintro v rfl h
    have hbelow : JudgedAll env F
        (v.tree.inner v.scope) v.tree.tasks _ v.regs v.found.annotations :=
      v.judgedAll (fun i w hchild => ?_) rfl (yields_tasks_nil.2 ⟨rfl, rfl⟩) v.below rfl
    · have hsteady := h v (.refl v)
      obtain ⟨hregion, hverified, -⟩ := yields_leave.1 v.left
      rw [hsteady.defined]
      exact .node v.present hbelow hregion hverified hsteady.sound
    · obtain ⟨ts, us, resume, -, -, -, -, hsplit, -, -, -, -, -⟩ := id hchild
      refine ih ⟨resume, w.tree⟩ (by simp [hsplit]) w rfl fun u hu => h u ?_
      exact ((Within.refl v).tail hchild).trans hu

end Visit

/-! ## From judgements to runs -/

variable {env : CheckEnv} {F : Table} {s : CheckState}

/-- The state has the table, and only stuck equations. -/
structure Frozen (F : Table) (s : CheckState) : Prop where
  table_eq : s.store.table = F
  stuck : ∀ e ∈ s.store.pending, e.isStuck F = true

theorem exists_solveAt (env : CheckEnv) (token : Token) (htable : s.store.table = F)
    (hquiet : ∀ e ∈ s.store.pending, e.Quiet F) :
    ∃ s', Yields (solveAt env token) s () s' ∧ s'.annotations = s.annotations ∧ Frozen F s' := by
  obtain ⟨store, hsolve, htable', hpending⟩ :=
    EquationStore.solve_quiet (s := s.store) (htable ▸ hquiet)
  refine ⟨_, yields_solveAt.2 ⟨store, hsolve, rfl⟩, rfl, htable'.trans htable, fun e he => ?_⟩
  have he : e ∈ store.pending := he
  rw [hpending, htable] at he
  exact (List.mem_filter.1 he).2

theorem Frozen.exists_solveAt (h : Frozen F s) (env : CheckEnv) (token : Token) :
    ∃ s', Yields (solveAt env token) s () s' ∧ s'.annotations = s.annotations ∧ Frozen F s' :=
  Check.exists_solveAt env token h.table_eq fun e he => Equation.quiet_of_stuck (h.stuck e he)

/-- Over a table that decides it, a call goes through if its slots are those of the callee with its
blocks replaced. -/
theorem Frozen.exists_instantiate (token : Token) {sig : CallSignature} {regs : List RegionSet}
    {type : Ty} (h : Frozen F s) (hbalanced : ∀ e ∈ type.pairs sig.result, e.Balanced F)
    (hsubst : ∃ result, sig.result.subst F (sig.passing regs) = .ok result)
    (heq : ∀ e ∈ type.pairs sig.result, ∀ sa sb, F.Knows e.left sa → F.Knows e.right sb →
      sa = (sig.passing regs).onSet sb)
    (hpresent : (type.isAbsent || sig.result.isAbsent) = false) :
    ∃ s', Yields (instantiate env token sig regs type) s () s' ∧ s'.annotations = s.annotations ∧
      Frozen F s' := by
  obtain ⟨result, hresult⟩ := hsubst
  have hquiet : ∀ e ∈ (s.store.unify type result).pending, e.Quiet F := by
    intro e he
    rcases List.mem_append.1 he with he | he
    · exact Equation.quiet_of_stuck (h.stuck e he)
    · rw [Ty.pairs_subst type hresult] at he
      obtain ⟨e', he', rfl⟩ := List.mem_map.1 he
      exact (hbalanced e' he').quiet_substituted (heq e' he')
  obtain ⟨s', hsolve, hann, hfrozen⟩ := Check.exists_solveAt env token
    (s := { s with store := s.store.unify type result }) h.table_eq hquiet
  exact ⟨s', (yields_instantiate hpresent).2 ⟨result, h.table_eq ▸ hresult, hsolve⟩, hann, hfrozen⟩

/-- Over a table that decides a node, settling it goes through if its obligations hold. -/
theorem Frozen.exists_settle {t : Tree} {regs : List RegionSet} {reg : RegionSet} (h : Frozen F s)
    (hdecided : t.Decided env F) (hlen : regs.length = t.tasks.length)
    (hsound : t.Sound env F regs reg) :
    ∃ s', Yields (settle env regs reg t) s () s' ∧ s'.annotations = t.define F reg s.annotations ∧
      Frozen F s' := by
  cases t with
  | function info symbol params blocks result body =>
    obtain ⟨s₁, hsolve, hann, hfrozen⟩ := h.exists_solveAt env info.token
    refine ⟨_, yields_settle_function.2 ⟨s₁, hsolve, hfrozen.table_eq ▸ hsound, rfl⟩, ?_,
      hfrozen.table_eq,
      hfrozen.stuck⟩
    simp [Tree.define, hann]
  | lambda info symbol params blocks result slot body =>
    obtain ⟨s₁, hsolve, hann, hfrozen⟩ := h.exists_solveAt env info.token
    have hmatch : Yields (matchSlot env info.token slot reg body) s () s := by
      cases slot with
      | none => exact yields_matchSlot_none.2 rfl
      | some term =>
        obtain ⟨expected, hknows⟩ := hdecided term rfl
        exact (yields_matchSlot_of_knows (h.table_eq ▸ hknows)).2
          ⟨hsound.1 term expected rfl hknows, rfl⟩
    refine ⟨_, yields_settle_lambda.2 ⟨s, s₁, hmatch, hsolve, hfrozen.table_eq ▸ hsound.2, rfl⟩, ?_,
      hfrozen.table_eq,
      hfrozen.stuck⟩
    simp [Tree.define, hann]
  | handle info body handlers type =>
    obtain ⟨s₁, hsolve, hann, hfrozen⟩ := h.exists_solveAt env info.token
    exact ⟨s₁, yields_settle_handle.2 ⟨hsolve, hfrozen.table_eq ▸ hsound⟩, hann, hfrozen⟩
  | binding info symbol type init =>
    obtain ⟨s₁, hsolve, hann, hfrozen⟩ := h.exists_solveAt env info.token
    obtain ⟨own, hown⟩ := hdecided
    refine ⟨_, yields_settle_binding.2 ⟨s₁, own, hsolve, hfrozen.table_eq ▸ hown, rfl⟩, ?_,
      hfrozen.table_eq,
      hfrozen.stuck⟩
    simp [Tree.define, Ty.regionsIn, hown, hann, Except.toOption]
  | call info callee args blockArgs type =>
    cases hsig : calleeSignature env callee with
    | none => exact ⟨s, (yields_settle_call_of_unknown hsig).2 rfl, rfl, h⟩
    | some sig =>
      cases hpresent : type.isAbsent || sig.result.isAbsent with
      | true =>
        exact ⟨s, (yields_settle_call hsig).2
          ((yields_instantiate_of_absent hpresent).2 rfl), rfl, h⟩
      | false =>
        obtain ⟨hbalanced, hsubst⟩ := hdecided sig hsig hpresent
        have hblocks : (regs.drop (args.length + 1)).length = blockArgs.length := by
          simp only [Tree.tasks, List.length_cons, List.length_map, List.length_append] at hlen
          simp only [List.length_drop, hlen]
          omega
        obtain ⟨s', hinst, hann, hfrozen⟩ := h.exists_instantiate info.token hbalanced
          (hsubst _ hblocks) (hsound sig hsig) hpresent
        exact ⟨s', (yields_settle_call hsig).2 hinst, hann, hfrozen⟩
  | _ => exact ⟨s, yields_pure.2 ⟨rfl, rfl⟩, rfl, h⟩

/-- What is judged of each tree, the check finds for all of them in order. -/
theorem yields_of_judgedAll {scope : Scope} {ts : List Task} {a : Annotations}
    {regs : List RegionSet} (h : JudgedAll env F scope ts s.annotations regs a) (hs : Frozen F s)
    (ih : ∀ c ∈ ts, ∀ {s reg a}, Judged env F scope c.tree s.annotations reg a → Frozen F s →
      ∃ s', Yields (node env scope c.tree) s reg s' ∧ s'.annotations = a ∧ Frozen F s') :
    ∃ s', Yields (tasks env scope ts) s regs s' ∧ s'.annotations = a ∧ Frozen F s' := by
  induction ts generalizing s regs with
  | nil =>
    cases h
    exact ⟨s, yields_tasks_nil.2 ⟨rfl, rfl⟩, rfl, hs⟩
  | cons c ts ihts =>
    cases h with
    | cons first rest =>
      obtain ⟨s₁, hnode, rfl, hs₁⟩ := ih c List.mem_cons_self (s := resumed scope c.resume s) first
        ⟨hs.table_eq, hs.stuck⟩
      obtain ⟨s', hrest, hann, hs'⟩ := ihts rest hs₁ fun d hd => ih d (List.mem_cons_of_mem c hd)
      exact ⟨s', yields_tasks_cons.2 ⟨_, s₁, _, hnode, hrest, rfl⟩, hann, hs'⟩

/-- Over a table that decides all nodes of a tree, the check finds what is judged, and leaves the
table as it is. -/
theorem yields_of_judged {scope : Scope} {t : Tree} {a : Annotations} {reg : RegionSet}
    (h : Judged env F scope t s.annotations reg a) (hs : Frozen F s)
    (hdecided : ∀ n ∈ t.nodes, n.Decided env F) :
    ∃ s', Yields (node env scope t) s reg s' ∧ s'.annotations = a ∧ Frozen F s' := by
  induction t using Tree.induction_on_tasks generalizing scope s reg a with
  | step t ih =>
    cases h with
    | hole => exact ⟨s, yields_hole.2 ⟨rfl, rfl⟩, rfl, hs⟩
    | @node _ _ _ a' regs _ present below region verified sound =>
      have hbelow : ∀ c ∈ t.tasks, ∀ n ∈ c.tree.nodes, n.Decided env F := fun c hc n hn =>
        hdecided n (Tree.mem_nodes.2 ⟨present, .inr ⟨c, hc, hn⟩⟩)
      obtain ⟨s₁, htasks, rfl, hs₁⟩ :=
        yields_of_judgedAll (s := entered scope t s) below ⟨hs.table_eq, hs.stuck⟩
          fun c hc _ _ _ hc' hs' => ih c hc hc' hs' (hbelow c hc)
      have hown := hdecided t (Tree.mem_nodes.2 ⟨present, .inl rfl⟩)
      have hmarked : Frozen F { s₁ with annotations := t.markScope s₁.annotations } :=
        ⟨hs₁.table_eq, hs₁.stuck⟩
      obtain ⟨s₂, hsettle, hann, hs₂⟩ := hmarked.exists_settle hown below.length_eq sound
      refine ⟨_, (yields_node present).2 ⟨regs, s₁, htasks,
        yields_leave.2 ⟨region, verified, s₂, hsettle, rfl⟩⟩, ?_,
        hs₂.table_eq, hs₂.stuck⟩
      rw [hann]

end Check

end RegionCapture
