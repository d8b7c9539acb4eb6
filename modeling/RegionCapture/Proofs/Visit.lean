import RegionCapture.Proofs.Run

/-!
# Visits

The check of one node within a run, with the states before it, once the trees below are checked, and
after it, is a visit (`Check.Visit`). A run visits every node of its tree
(`Check.Visit.exists_within`). What a visit leaves behind is not touched by the rest of the run:
tables only grow, and if all nodes have different numbers and all binders different symbols, the
nodes and binders below the visited one keep their annotations (`Check.Visit.Within.steps`). The
visits of a whole unit are those within the visit of its root (`Module.Visits`).
-/

namespace RegionCapture

/-- What may be annotated outside a part of a tree, if numbers and symbols are used once. -/
def Tree.elsewhere (t n : Tree) : Footprint :=
  ⟨fun id => t.ids.Nodup → id ∉ n.ids, fun x => t.allBinders.Nodup → x ∉ n.allBinders⟩

namespace Check

/-- The check of a node that succeeds. -/
structure Visit (env : CheckEnv) where
  scope : Scope
  tree : Tree
  before : CheckState
  /-- the regions of the trees below -/
  regs : List RegionSet
  /-- the state once the trees below are checked -/
  found : CheckState
  region : RegionSet
  after : CheckState
  present : tree.isHole = false
  below : Yields (tasks env (tree.inner scope) tree.tasks) (entered scope tree before) regs found
  left : Yields (leave env scope regs tree) found region after

namespace Visit

variable {env : CheckEnv} {u v w : Visit env}

/-- The second visit is that of a tree right below the node of the first, at the given place. -/
inductive Child (v : Visit env) (i : Nat) (w : Visit env) : Prop
  | intro (ts us : List Task) (resume : Option SymbolId) (regs regs' : List RegionSet)
    (s : CheckState) (place : ts.length = i)
    (split : v.tree.tasks = ts ++ ⟨resume, w.tree⟩ :: us)
    (scope_eq : w.scope = v.tree.inner v.scope)
    (earlier : Yields (tasks env w.scope ts) (entered v.scope v.tree v.before) regs s)
    (starts : w.before = resumed w.scope resume s)
    (later : Yields (tasks env w.scope us) w.after regs' v.found)
    (regs_eq : v.regs = regs ++ w.region :: regs')

/-- The second visit is a part of the first. -/
def Within (v w : Visit env) : Prop := Relation.ReflTransGen (fun v w => ∃ i, Child v i w) v w

theorem Within.refl (v : Visit env) : v.Within v := Relation.ReflTransGen.refl

theorem Within.tail {i : Nat} (h : v.Within u) (h' : u.Child i w) : v.Within w :=
  Relation.ReflTransGen.tail h ⟨i, h'⟩

theorem Within.trans (h : v.Within u) (h' : u.Within w) : v.Within w :=
  Relation.ReflTransGen.trans h h'

/-! ## Every node is visited -/

theorem yields_node_of_visit (v : Visit env) :
    Yields (node env v.scope v.tree) v.before v.region v.after :=
  (yields_node v.present).2 ⟨v.regs, v.found, v.below, v.left⟩

theorem exists_of_yields {scope : Scope} {t : Tree} {s s' : CheckState} {reg : RegionSet}
    (hhole : t.isHole = false) (h : Yields (node env scope t) s reg s') :
    ∃ v : Visit env, v.scope = scope ∧ v.tree = t ∧ v.before = s ∧ v.region = reg ∧
      v.after = s' := by
  obtain ⟨regs, s₁, hbelow, hleave⟩ := (yields_node hhole).1 h
  exact ⟨⟨scope, t, s, regs, s₁, reg, s', hhole, hbelow, hleave⟩, rfl, rfl, rfl, rfl, rfl⟩

/-- The check of a tree below a node, between those before and after it. -/
theorem yields_at (v : Visit env) {i : Nat} {c : Task} (hc : v.tree.tasks[i]? = some c) :
    ∃ ts us regs s reg s' regs', ts.length = i ∧ v.tree.tasks = ts ++ c :: us ∧
      Yields (tasks env (v.tree.inner v.scope) ts) (entered v.scope v.tree v.before) regs s ∧
      Yields (node env (v.tree.inner v.scope) c.tree)
        (resumed (v.tree.inner v.scope) c.resume s) reg s' ∧
      Yields (tasks env (v.tree.inner v.scope) us) s' regs' v.found ∧
      v.regs = regs ++ reg :: regs' := by
  obtain ⟨hi, hget⟩ := List.getElem?_eq_some_iff.1 hc
  have hsplit : v.tree.tasks = v.tree.tasks.take i ++ c :: v.tree.tasks.drop (i + 1) := by
    rw [← hget, ← List.drop_eq_getElem_cons hi, List.take_append_drop]
  have hbelow := v.below
  rw [hsplit] at hbelow
  obtain ⟨regs, s, rest, hearlier, hrest, hregs⟩ := yields_tasks_append.1 hbelow
  obtain ⟨reg, s', regs', hnode, hlater, rfl⟩ := yields_tasks_cons.1 hrest
  exact ⟨_, _, regs, s, reg, s', regs', List.length_take_of_le (Nat.le_of_lt hi), hsplit, hearlier,
    hnode, hlater,
    hregs⟩

/-- A tree that is there is visited, and its regions stand at its place. -/
theorem exists_child (v : Visit env) {i : Nat} {c : Task} (hc : v.tree.tasks[i]? = some c)
    (hhole : c.tree.isHole = false) :
    ∃ w, v.Child i w ∧ w.tree = c.tree ∧ v.regs[i]? = some w.region := by
  obtain ⟨ts, us, regs, s, reg, s', regs', hlen, hsplit, hearlier, hnode, hlater, hregs⟩ :=
    v.yields_at hc
  obtain ⟨w, hscope, htree, hbefore, rfl, rfl⟩ := exists_of_yields hhole hnode
  refine ⟨w, ⟨ts, us, c.resume, regs, regs', s, hlen, htree ▸ hsplit, hscope, hscope ▸ hearlier,
    hscope ▸ hbefore,
    hscope ▸ hlater, hregs⟩, htree, ?_⟩
  simp [hregs, ← hlen, ← length_tasks hearlier]

theorem regs_of_hole (v : Visit env) {i : Nat} {c : Task} (hc : v.tree.tasks[i]? = some c)
    (hhole : c.tree.isHole = true) : v.regs[i]? = some ∅ := by
  obtain ⟨ts, us, regs, s, reg, s', regs', hlen, -, hearlier, hnode, -, hregs⟩ := v.yields_at hc
  rw [Tree.eq_hole hhole] at hnode
  simp [hregs, ← hlen, ← length_tasks hearlier, (yields_hole.1 hnode).1]

/-- Every node below the visited one is visited. -/
theorem exists_within_child (v : Visit env) {c : Task} {n : Tree} (hc : c ∈ v.tree.tasks)
    (hn : n ∈ c.tree.nodes) (ih : ∀ w : Visit env, w.tree = c.tree → ∃ u, w.Within u ∧ u.tree = n) :
    ∃ i w u, v.Child i w ∧ w.Within u ∧ u.tree = n := by
  obtain ⟨i, hi⟩ := List.mem_iff_getElem?.1 hc
  obtain ⟨w, hchild, htree, -⟩ := v.exists_child hi (Tree.mem_nodes.1 hn).1
  obtain ⟨u, hwithin, hu⟩ := ih w htree
  exact ⟨i, w, u, hchild, hwithin, hu⟩

/-- Every node of the visited tree is visited. -/
theorem exists_within (v : Visit env) {n : Tree} (hn : n ∈ v.tree.nodes) :
    ∃ w, v.Within w ∧ w.tree = n := by
  suffices h : ∀ t, n ∈ t.nodes → ∀ v : Visit env, v.tree = t → ∃ w, v.Within w ∧ w.tree = n
      from h _ hn v rfl
  intro t
  induction t using Tree.induction_on_tasks with
  | step t ih =>
    rintro hn v rfl
    rcases (Tree.mem_nodes.1 hn).2 with rfl | ⟨c, hc, hn⟩
    · exact ⟨v, .refl v, rfl⟩
    · obtain ⟨i, w, u, hchild, hwithin, hu⟩ := v.exists_within_child hc hn (ih c hc hn)
      exact ⟨u, ((Within.refl v).tail hchild).trans hwithin, hu⟩

/-! ## What the rest of a run leaves alone -/

/-- The numbers and the binders of a tree below a node, among those of the node. -/
theorem Child.split_ids {i : Nat} (h : v.Child i w) :
    ∃ ts us : List Task,
    v.tree.ids = v.tree.id ::
      (ts.flatMap (fun c => c.tree.ids) ++ (w.tree.ids ++ us.flatMap fun c => c.tree.ids)) ∧
    v.tree.allBinders = v.tree.binders ++
      (ts.flatMap (fun c => c.tree.allBinders) ++
        (w.tree.allBinders ++ us.flatMap fun c => c.tree.allBinders)) ∧
    (∀ c ∈ us, c ∈ v.tree.tasks) ∧ ∃ regs, Yields (tasks env w.scope us) w.after regs v.found := by
  obtain ⟨ts, us, resume, regs, regs', s, -, hsplit, -, -, -, hlater, -⟩ := h
  refine ⟨ts, us, ?_, ?_, fun c hc => ?_, regs', hlater⟩
  · rw [Tree.ids_eq v.present, hsplit, List.flatMap_append, List.flatMap_cons]
  · rw [Tree.allBinders_eq v.present, hsplit, List.flatMap_append, List.flatMap_cons]
  · rw [hsplit]
    exact List.mem_append_right ts (List.mem_cons_of_mem _ hc)

theorem Child.sublist {i : Nat} (h : v.Child i w) :
    w.tree.ids.Sublist v.tree.ids ∧ w.tree.allBinders.Sublist v.tree.allBinders := by
  obtain ⟨ts, us, hids, hbinders, -⟩ := h.split_ids
  constructor
  · rw [hids]
    exact ((List.sublist_append_left _ _).trans (List.sublist_append_right _ _)).cons _
  · rw [hbinders]
    exact ((List.sublist_append_left _ _).trans (List.sublist_append_right _ _)).trans
      (List.sublist_append_right _ _)

/-- From a visit to the end of the trees around it nothing below its node is annotated again. -/
theorem Child.steps_found {i : Nat} (h : v.Child i w) :
    Steps (v.tree.elsewhere w.tree) w.after v.found := by
  obtain ⟨ts, us, hids, hbinders, hmem, regs, hlater⟩ := h.split_ids
  refine (steps_tasks hlater).mono ⟨fun id ⟨c, hc, hid⟩ hnodup hin => ?_,
    fun x ⟨c, hc, hx⟩ hnodup hin => ?_⟩
  · rw [hids] at hnodup
    have htail := ((List.nodup_cons.1 hnodup).2.sublist (List.sublist_append_right _ _))
    exact (List.nodup_append.1 htail).2.2 id hin id (List.mem_flatMap.2 ⟨c, hc, hid⟩) rfl
  · rw [hbinders] at hnodup
    rcases hx with hx | hx
    · -- a resumption of a later clause is a binder of the node itself
      have hown : x ∈ v.tree.binders :=
        List.mem_append_right _ (List.mem_filterMap.2 ⟨c, hmem c hc, hx⟩)
      exact (List.nodup_append.1 hnodup).2.2 x hown x
        (List.mem_append_right _ (List.mem_append_left _ hin)) rfl
    · have htail := ((List.nodup_append.1 hnodup).2.1.sublist (List.sublist_append_right _ _))
      exact (List.nodup_append.1 htail).2.2 x hin x (List.mem_flatMap.2 ⟨c, hc, hx⟩) rfl

theorem Child.steps {i : Nat} (h : v.Child i w) :
    Steps (v.tree.elsewhere w.tree) w.after v.after := by
  refine h.steps_found.trans ((steps_leave v.left).mono ?_)
  obtain ⟨ts, us, hids, hbinders, -⟩ := h.split_ids
  refine ⟨fun id hid hnodup hin => ?_, fun x hx hnodup hin => ?_⟩
  · rw [hids] at hnodup
    refine (List.nodup_cons.1 hnodup).1 (List.mem_append_right _ (List.mem_append_left _ ?_))
    rwa [← show id = v.tree.id from hid]
  · rw [hbinders] at hnodup
    have hown : x ∈ v.tree.binders := List.mem_append_left _ hx
    exact (List.nodup_append.1 hnodup).2.2 x hown x
      (List.mem_append_right _ (List.mem_append_left _ hin)) rfl

theorem Child.extends_before {i : Nat} (h : v.Child i w) :
    v.before.store.table.Extends w.before.store.table := by
  obtain ⟨ts, us, resume, regs, regs', s, -, -, -, hearlier, hstarts, -, -⟩ := h
  rw [hstarts]
  exact (steps_tasks hearlier).extends_table

theorem Within.sublist (h : v.Within w) :
    w.tree.ids.Sublist v.tree.ids ∧ w.tree.allBinders.Sublist v.tree.allBinders := by
  induction h with
  | refl => exact ⟨.refl _, .refl _⟩
  | tail _ hchild ih =>
    obtain ⟨i, hchild⟩ := hchild
    exact ⟨hchild.sublist.1.trans ih.1, hchild.sublist.2.trans ih.2⟩

/-- From a visit to the end of the visit around it nothing below its node is annotated again. -/
theorem Within.steps (h : v.Within w) : Steps (v.tree.elsewhere w.tree) w.after v.after := by
  induction h with
  | refl => exact .refl _ _
  | tail hwithin hchild ih =>
    obtain ⟨i, hchild⟩ := hchild
    have hsub := Within.sublist hwithin
    have hin := hchild.sublist
    refine (hchild.steps.mono ⟨fun id hid hnodup => hid (hnodup.sublist hsub.1),
      fun x hx hnodup => hx (hnodup.sublist hsub.2)⟩).trans (ih.mono ?_)
    exact ⟨fun id hid hnodup hmem => hid hnodup (hin.1.subset hmem),
      fun x hx hnodup hmem => hx hnodup (hin.2.subset hmem)⟩

theorem Within.extends_before (h : v.Within w) :
    v.before.store.table.Extends w.before.store.table := by
  induction h with
  | refl => exact .refl _
  | tail _ hchild ih =>
    obtain ⟨i, hchild⟩ := hchild
    exact ih.trans hchild.extends_before

theorem Within.nodes_subset (h : v.Within w) : ∀ n ∈ w.tree.nodes, n ∈ v.tree.nodes := by
  induction h with
  | refl => exact fun n hn => hn
  | tail _ hchild ih =>
    obtain ⟨i, ts, us, resume, -, -, -, -, hsplit, -, -, -, -, -⟩ := hchild
    exact fun n hn => ih n (Tree.mem_nodes.2 ⟨Visit.present _,
      .inr ⟨⟨resume, _⟩, by simp [hsplit], hn⟩⟩)

theorem extends_found (v : Visit env) : v.before.store.table.Extends v.found.store.table :=
  (steps_tasks v.below).extends_table

theorem extends_after (v : Visit env) : v.found.store.table.Extends v.after.store.table :=
  (steps_leave v.left).extends_table

theorem node?_after (v : Visit env) : v.after.annotations.node? v.tree.id = some v.region := by
  obtain ⟨-, -, s₁, -, hafter⟩ := yields_leave.1 v.left
  simp [hafter]

end Visit

end Check

/-! ## The visits of a unit -/

namespace Module

open Check

variable {symbols : SymbolTable} {options : Options} {table F : Table} {m : Module}
  {report : CheckReport}

/-- The visit is a part of the check of the unit. -/
def Visits (m : Module) (symbols : SymbolTable) (options : Options) (table : Table)
    (v : Visit (m.env symbols options)) : Prop :=
  ∃ root : Visit (m.env symbols options), root.scope = {} ∧ root.tree = m.tree ∧
    root.before = m.start table ∧
    root.Within v

theorem isHole_tree (m : Module) : m.tree.isHole = false := rfl

theorem check_eq_ok : check symbols options table m = (.ok report, F) ↔
    ∃ reg s final, Yields (node (m.env symbols options) {} m.tree) (m.start table) reg s ∧
      Yields (solveAt (m.env symbols options) m.info.token) s () final ∧
      report = final.report ∧ F = final.store.table := by
  rw [check_eq]
  constructor
  · intro h
    rcases hout : outcome (whole (m.env symbols options) m) (m.start table) with ⟨_ | ⟨⟨⟩⟩, final⟩
    · rw [hout] at h
      simp [Except.map] at h
    · rw [hout] at h
      simp only [Except.map, Prod.mk.injEq, Except.ok.injEq] at h
      obtain ⟨reg, s, hnode, hsolve⟩ := yields_bind.1 hout
      exact ⟨reg, s, final, hnode, hsolve, h.1.symm, h.2.symm⟩
  · rintro ⟨reg, s, final, hnode, hsolve, rfl, rfl⟩
    have hout : outcome (whole (m.env symbols options) m) (m.start table) = (.ok (), final) :=
      yields_bind.2 ⟨reg, s, hnode, hsolve⟩
    rw [hout]
    rfl

/-- A unit is accepted if its check has a report of which something is known. -/
theorem exists_report {α : Type} {f : CheckReport → α} {x : α}
    (h : (check symbols options table m).1.toOption.map f = some x)
    (hF : (check symbols options table m).2 = F) :
    ∃ report, check symbols options table m = (.ok report, F) ∧ f report = x := by
  rcases hcheck : check symbols options table m with ⟨_ | report, final⟩
  · rw [hcheck] at h
    cases h
  · rw [hcheck] at h hF
    cases hF
    exact ⟨report, rfl, by simpa [Except.toOption] using h⟩

/-- The check of an accepted unit visits every node. -/
theorem exists_visit (h : check symbols options table m = (.ok report, F)) {n : Tree}
    (hn : n ∈ m.tree.nodes) :
    ∃ v, m.Visits symbols options table v ∧ v.tree = n := by
  obtain ⟨reg, s, final, hnode, -⟩ := check_eq_ok.1 h
  obtain ⟨root, hscope, htree, hbefore, -⟩ := Visit.exists_of_yields m.isHole_tree hnode
  obtain ⟨v, hwithin, hv⟩ := root.exists_within (htree ▸ hn)
  exact ⟨v, ⟨root, hscope, htree, hbefore, hwithin⟩, hv⟩

variable {v : Visit (m.env symbols options)}

/-- What happens after a visit, until the unit is accepted. Only stuck equations are left over. -/
theorem Visits.steps (hv : m.Visits symbols options table v)
    (h : check symbols options table m = (.ok report, F)) :
    ∃ final, Steps (m.tree.elsewhere v.tree) v.after final ∧ report = final.report ∧
      F = final.store.table ∧
      ∀ e ∈ final.store.pending, e.isStuck F = true := by
  obtain ⟨root, hscope, htree, hbefore, hwithin⟩ := hv
  obtain ⟨reg, s, final, hnode, hsolve, hreport, hF⟩ := check_eq_ok.1 h
  have hroot := root.yields_node_of_visit
  rw [hscope, htree, hbefore] at hroot
  obtain ⟨-, rfl⟩ := hroot.unique hnode
  obtain ⟨store, hstore, rfl⟩ := yields_solveAt.1 hsolve
  refine ⟨_, htree ▸ hwithin.steps.trans ((equates_solveAt hsolve).steps _), hreport, hF, ?_⟩
  rw [hF]
  exact (EquationStore.solvedTo_solve hstore).stuck

/-- An equation that a visit leaves ensured holds in the end, or stays between two open
variables. -/
theorem Visits.settled_or_stuck (hv : m.Visits symbols options table v)
    (h : check symbols options table m = (.ok report, F)) {e : Equation} (he : Ensures v.after e) :
    e.Settled F ∨ e.isStuck F = true := by
  obtain ⟨final, hsteps, -, rfl, hstuck⟩ := hv.steps h
  rcases hsteps.lasts he with hpending | hsettled
  · exact .inr (hstuck e hpending)
  · exact .inl hsettled

theorem Visits.extends_before (hv : m.Visits symbols options table v) :
    table.Extends v.before.store.table := by
  obtain ⟨root, -, -, hbefore, hwithin⟩ := hv
  have hext := hwithin.extends_before
  rwa [hbefore] at hext

theorem Visits.extends_after (hv : m.Visits symbols options table v)
    (h : check symbols options table m = (.ok report, F)) : v.after.store.table.Extends F := by
  obtain ⟨final, hsteps, -, rfl, -⟩ := hv.steps h
  exact hsteps.extends_table

theorem Visits.extends_found (hv : m.Visits symbols options table v)
    (h : check symbols options table m = (.ok report, F)) : v.found.store.table.Extends F :=
  v.extends_after.trans (hv.extends_after h)

theorem Visits.within (hv : m.Visits symbols options table v) {w : Visit (m.env symbols options)}
    (h : v.Within w) :
    m.Visits symbols options table w := by
  obtain ⟨root, hscope, htree, hbefore, hwithin⟩ := hv
  exact ⟨root, hscope, htree, hbefore, hwithin.trans h⟩

theorem Visits.child (hv : m.Visits symbols options table v) {i : Nat}
    {w : Visit (m.env symbols options)} (h : v.Child i w) : m.Visits symbols options table w :=
  hv.within ((Visit.Within.refl v).tail h)

/-- If all nodes have different numbers, the report has the regions that a visit found. -/
theorem Visits.node?_report (hv : m.Visits symbols options table v)
    (h : check symbols options table m = (.ok report, F)) (hids : m.tree.ids.Nodup) :
    report.annotations.node? v.tree.id = some v.region := by
  obtain ⟨final, hsteps, rfl, -, -⟩ := hv.steps h
  have hself : v.tree.id ∈ v.tree.ids := by
    rw [Tree.ids_eq v.present]
    exact List.mem_cons_self
  exact (hsteps.sameOutside.nodes _ fun hout => hout hids hself).trans v.node?_after

theorem Visits.mem_nodes (hv : m.Visits symbols options table v) : v.tree ∈ m.tree.nodes := by
  obtain ⟨root, -, htree, -, hwithin⟩ := hv
  exact htree ▸ hwithin.nodes_subset v.tree (Tree.mem_nodes.2 ⟨v.present, .inl rfl⟩)

/-- If all binders have different symbols, the report has what the visit of a tree made of the
symbols bound in it. -/
theorem Visits.symbol?_report (hv : m.Visits symbols options table v)
    (h : check symbols options table m = (.ok report, F)) (hbinders : m.tree.allBinders.Nodup)
    {x : SymbolId} (hx : x ∈ v.tree.allBinders) :
    report.annotations.symbol? x = v.after.annotations.symbol? x := by
  obtain ⟨final, hsteps, rfl, -, -⟩ := hv.steps h
  exact hsteps.sameOutside.symbols x fun hout => hout hbinders hx

end Module

end RegionCapture
