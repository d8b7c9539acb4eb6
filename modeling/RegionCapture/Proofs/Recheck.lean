import RegionCapture.Proofs.Escape
import RegionCapture.Proofs.Instantiation
import RegionCapture.Proofs.Judgement

/-!
# Checking a unit again

A unit that is accepted may be checked again over the table that the first check leaves. The second
check reads slots that the first one found open, so it need not agree with it
(`Module.recheck_reads_more`). Main statement `Module.recheck_iff`: the second check gives the same
annotations iff the reported ones are judged over the final table. If every node has a number and
every binder a symbol of its own, this means that the report is stable (`Module.Stable`): every
binding captures what its type says in the end, no result type mentions in the end what must not
leave, and every call has in the end the slots of its callee with the blocks replaced.
-/

namespace RegionCapture

/-- The annotations say the same about every node, symbol and binder. -/
structure Annotations.Same (a b : Annotations) : Prop where
  nodes : ∀ id, a.node? id = b.node? id
  symbols : ∀ x, a.symbol? x = b.symbol? x
  scopes : ∀ id, a.scope? id = b.scope? id

namespace Annotations

/-- The annotations of all nodes, symbols and binders, each in ascending order. -/
def listing (a : Annotations) :
    List (NodeId × RegionSet) × List (SymbolId × RegionSet) × List (NodeId × RegionSet) :=
  (a.nodes.toList, a.symbols.toList, a.scopes.toList)

theorem same_of_listing {a b : Annotations} (h : a.listing = b.listing) : a.Same b := by
  simp only [listing, Prod.mk.injEq] at h
  exact ⟨fun _ => (Std.TreeMap.equiv_iff_toList_eq.2 h.1).getElem?_eq,
    fun _ => (Std.TreeMap.equiv_iff_toList_eq.2 h.2.1).getElem?_eq,
    fun _ => (Std.TreeMap.equiv_iff_toList_eq.2 h.2.2).getElem?_eq⟩

end Annotations

namespace Module

/-- A check over the table accepts the unit, reports the same as before, and leaves the table as it
is. -/
def Reproduced (m : Module) (symbols : SymbolTable) (options : Options) (F : Table)
    (report : CheckReport) : Prop :=
  ∃ again, check symbols options F m = (.ok again, F) ∧ again.annotations.Same report.annotations ∧
    again.stats.nodes = report.stats.nodes

/-- The annotations agree with the table, at every node that asks for its slots. -/
structure Stable (m : Module) (symbols : SymbolTable) (F : Table) (a : Annotations) : Prop where
  /-- a binding captures what its type says -/
  bindings : ∀ info symbol type init, .binding info symbol type init ∈ m.tree.nodes →
    a.symbol? symbol = some (type.regionsIn F)
  /-- a result type mentions nothing that must not leave -/
  confined : ∀ n ∈ m.tree.nodes,
    ∀ type terms term set, n.resultType? = some type → type.slots = .ok terms →
    term ∈ terms → F.Knows term set → ∀ r ∈ set, ¬ n.Confines symbols r
  /-- a call has the slots of its callee, with the blocks it passes put in -/
  replaced : ∀ info place symbol args blockArgs type sig,
    .call info (.ref place symbol) args blockArgs type ∈ m.tree.nodes →
    m.signatures[symbol]? = some sig →
    ∀ e ∈ type.pairs sig.result, ∀ sa sb, F.Knows e.left sa → F.Knows e.right sb →
      sa = (sig.passing (blockArgs.map (Tree.regionIn a))).onSet sb

end Module

namespace Check

variable {env : CheckEnv} {scope : Scope} {s s' : CheckState} {reg : RegionSet}
  {regs : List RegionSet} {F : Table}

/-! ## Counting nodes -/

theorem nodes_tasks {ts : List Task} (h : Yields (tasks env scope ts) s regs s')
    (ih : ∀ c ∈ ts, ∀ {scope s reg s'}, Yields (node env scope c.tree) s reg s' →
      s'.nodes = s.nodes + c.tree.nodes.length) :
    s'.nodes = s.nodes + (ts.flatMap fun c => c.tree.nodes).length := by
  induction ts generalizing s regs with
  | nil => rw [(yields_tasks_nil.1 h).2]; rfl
  | cons c ts ihts =>
    obtain ⟨reg, s₁, regs', hnode, hrest, rfl⟩ := yields_tasks_cons.1 h
    have hfirst := ih c List.mem_cons_self hnode
    have hrest := ihts hrest fun d hd => ih d (List.mem_cons_of_mem c hd)
    simp only [List.flatMap_cons, List.length_append, hrest, hfirst]
    exact Nat.add_assoc _ _ _

/-- A check counts every node of the tree once. -/
theorem nodes_node {t : Tree} (h : Yields (node env scope t) s reg s') :
    s'.nodes = s.nodes + t.nodes.length := by
  induction t using Tree.induction_on_tasks generalizing scope s reg s' with
  | step t ih =>
    cases hhole : t.isHole with
    | true =>
      rw [Tree.eq_hole hhole] at h ⊢
      rw [(yields_hole.1 h).2]
      rfl
    | false =>
      obtain ⟨regs, s₁, hbelow, hleave⟩ := (yields_node hhole).1 h
      obtain ⟨-, -, s₂, hsettle, rfl⟩ := yields_leave.1 hleave
      have htasks := nodes_tasks hbelow fun c hc => ih c hc
      have hsettled := (steps_settle hsettle).nodes_eq fun _ => id
      simp only [entered] at htasks
      simp only [Tree.nodes_eq hhole, List.length_cons, hsettled, htasks]
      omega

/-! ## Visits that agree with a table -/

/-- A type that avoids regions goes on to do so if none of them turns up in its slots. -/
theorem avoids_later {t : Table} {type : Ty} {forbidden : RegionSet} (h : type.Avoids t forbidden)
    (hext : t.Extends F) (hno : ∀ terms term set,
      type.slots = .ok terms → term ∈ terms → F.Knows term set → ∀ r ∈ set, r ∉ forbidden) :
    type.Avoids F forbidden := by
  obtain ⟨free, hfree, -⟩ := h
  obtain ⟨free', hfree'⟩ := Ty.exists_freeRegions hext hfree
  refine ⟨free', hfree', fun r hr => ?_⟩
  cases habsent : type.isAbsent with
  | true =>
    simp only [Ty.freeRegions, habsent, if_true, Except.ok.injEq] at hfree'
    exact absurd hr (hfree' ▸ RegionSet.not_mem_empty r)
  | false =>
    simp only [Ty.freeRegions, habsent, Bool.false_eq_true, if_false] at hfree'
    obtain ⟨terms, hslots, hunion⟩ := bind_eq_ok.1 hfree'
    obtain ⟨term, hterm, set, hknows, hr⟩ := ((Ty.unionKnown_spec hunion).2 r).1 hr
    exact hno terms term set hslots hterm hknows r hr

/-- A visit agrees with a later table if, over it, the result type confines what must not leave, a
binding captures what its type says, and a call has the slots of its callee with the blocks
replaced. -/
theorem Visit.steady (v : Visit env) (hext : v.after.store.table.Extends F)
    (hconfined : ∀ type terms term set,
      v.tree.resultType? = some type → type.slots = .ok terms → term ∈ terms →
      F.Knows term set → ∀ r ∈ set, ¬ v.tree.Confines env.symbols r)
    (hbinding : ∀ info symbol type init, v.tree = .binding info symbol type init →
      v.after.annotations.symbol? symbol = some (type.regionsIn F))
    (hcall : ∀ info callee args blockArgs type sig, v.tree = .call info callee args blockArgs type →
      calleeSignature env callee = some sig →
      ∀ e ∈ type.pairs sig.result, ∀ sa sb, F.Knows e.left sa →
        F.Knows e.right sb → sa = (sig.passing (v.blockRegions args)).onSet sb) : v.Steady F := by
  obtain ⟨-, -, s₁, hsettle, hafter⟩ := yields_leave.1 v.left
  have hann : v.after.annotations = s₁.annotations.annotateNode v.tree.id v.region := by rw [hafter]
  rw [hafter] at hext
  cases htree : v.tree with
  | function info symbol params blocks result body =>
    rw [htree] at hsettle hconfined
    obtain ⟨s₂, hsolve, havoid, rfl⟩ := yields_settle_function.1 hsettle
    refine ⟨?_, ?_⟩
    · rw [htree]
      exact avoids_later havoid hext fun terms term set hslots hterm hknows r hr hf =>
        hconfined result terms term set rfl hslots hterm hknows r hr (mem_capabilities_add.1 hf)
    · rw [hann, (equates_solveAt hsolve).annotations_eq, htree]
      rfl
  | lambda info symbol params blocks result slot body =>
    rw [htree] at hsettle hconfined
    obtain ⟨s₂, s₃, hmatch, hsolve, havoid, rfl⟩ := yields_settle_lambda.1 hsettle
    have hlater := (equates_solveAt hsolve).extends_table.trans hext
    refine ⟨?_, ?_⟩
    · rw [htree]
      refine ⟨?_, avoids_later havoid hext fun terms term set hslots hterm hknows r hr hf =>
        hconfined result terms term set rfl hslots hterm hknows r hr (mem_capabilities_add.1 hf)⟩
      rintro term expected rfl hknows
      obtain ⟨bound, hbound, hreg⟩ := knows_of_yields_matchSlot hmatch
      rwa [hknows.unique (hlater.knows hbound)]
    · rw [hann, (equates_solveAt hsolve).annotations_eq,
        (equates_matchSlot hmatch).annotations_eq, htree]
      rfl
  | handle info body handlers type =>
    rw [htree] at hsettle hconfined
    obtain ⟨hsolve, havoid⟩ := yields_settle_handle.1 hsettle
    refine ⟨?_, ?_⟩
    · rw [htree]
      refine avoids_later havoid hext fun terms term set hslots hterm hknows r hr hf => ?_
      obtain ⟨x, hx, rfl⟩ := mem_regionsOf.1 hf
      obtain ⟨h, hh, rfl⟩ := List.mem_map.1 hx
      exact hconfined type terms term set rfl hslots hterm hknows _ hr ⟨h, hh, rfl⟩
    · rw [hann, (equates_solveAt hsolve).annotations_eq, htree]
      rfl
  | binding info symbol type init =>
    rw [htree] at hsettle
    obtain ⟨s₂, own, hsolve, -, rfl⟩ := yields_settle_binding.1 hsettle
    refine ⟨by rw [htree]; trivial, ?_⟩
    have hown := hbinding info symbol type init htree
    rw [hann] at hown ⊢
    have hown : some own = some (type.regionsIn F) := by
      simpa [Annotations.annotateNode, Annotations.symbol?, Annotations.annotateSymbol] using hown
    rw [(equates_solveAt hsolve).annotations_eq, htree, Option.some.inj hown]
    rfl
  | call info callee args blockArgs type =>
    refine ⟨?_, ?_⟩
    · rw [htree]
      exact fun sig hsig e he sa sb hsa hsb =>
        hcall info callee args blockArgs type sig htree hsig e he sa sb hsa hsb
    · rw [htree] at hsettle
      rw [hann, (equates_settle_call hsettle).annotations_eq, htree]
      rfl
  | _ =>
    rw [htree] at hsettle
    refine ⟨by rw [htree]; trivial, ?_⟩
    rw [hann, ← (yields_pure.1 hsettle).2, htree]
    rfl

end Check

namespace Module

open Check

variable {symbols : SymbolTable} {options : Options} {table F : Table} {m : Module}
  {report : CheckReport} {v : Visit (m.env symbols options)}

/-! ## The final table decides everything -/

/-- Slots that correspond to each other at a call are in the end both known or both open. -/
theorem Visits.balanced (hv : m.Visits symbols options table v)
    (h : check symbols options table m = (.ok report, F)) {info : Anchor} {callee : Tree}
    {args blockArgs : List Tree} {type : Ty} {sig : CallSignature}
    (hcall : v.tree = .call info callee args blockArgs type)
    (hsig : calleeSignature (m.env symbols options) callee = some sig) {e : Equation}
    (he : e ∈ type.pairs sig.result) : e.Balanced F := by
  have hend := hv.settled_or_stuck_pair h hcall hsig he
  have hext := hv.extends_found h
  have hcov := Equation.covered_of_substituted
    ((Visit.substitutes hcall hsig (Ty.present_of_mem_pairs he)).2 e he).1
  rcases hcov.2.knows_or_open with ⟨s, hs⟩ | hopen
  · have hright := hext.knows
      (Equation.knows_substituted (s := sig.passing (v.blockRegions args)) hs)
    rcases hend with (heq | ⟨sa, hleft, -⟩) | hstuck
    · rw [← heq, Equation.left_substituted] at hright
      exact .inl ⟨_, s, hright, hext.knows hs⟩
    · rw [Equation.left_substituted] at hleft
      exact .inl ⟨sa, s, hleft, hext.knows hs⟩
    · exact absurd (Equation.isStuck_iff.1 hstuck).2.2 hright.not_open
  · rw [Equation.substituted_of_open hopen] at hend
    rcases hend with (heq | ⟨sa, hleft, hright⟩) | hstuck
    · rw [Equation.Balanced, heq]
      exact (hext.covers_iff.2 hcov.2).knows_or_open.imp (fun ⟨s, hs⟩ => ⟨s, s, hs, hs⟩)
        fun ho => ⟨ho, ho⟩
    · exact .inl ⟨sa, sa, hleft, hright⟩
    · exact .inr (Equation.isStuck_iff.1 hstuck).2

/-- Whether a call passes any block depends on how many there are. -/
theorem passing_eq_nil {sig : CallSignature} {regs regs' : List RegionSet}
    (hlen : regs.length = regs'.length) (h : sig.passing regs = []) : sig.passing regs' = [] := by
  rw [CallSignature.passing_eq, List.reverse_eq_nil_iff, List.map_eq_nil_iff,
    List.zip_eq_nil_iff] at h ⊢
  refine h.imp_right fun hnil => ?_
  rw [hnil] at hlen
  exact List.length_eq_zero_iff.1 hlen.symm

/-- The table after an accepted check decides every visited node. -/
theorem Visits.decided (hv : m.Visits symbols options table v)
    (h : check symbols options table m = (.ok report, F)) :
    v.tree.Decided (m.env symbols options) F := by
  cases htree : v.tree with
  | lambda info symbol params blocks result slot body =>
    rintro term rfl
    obtain ⟨set, hknows, -⟩ := v.knows_slot (show v.tree.slot? = some term by rw [htree]; rfl)
    exact ⟨set, (hv.extends_after h).knows hknows⟩
  | binding info symbol type init =>
    obtain ⟨-, -, s₁, hsettle, hafter⟩ := yields_leave.1 v.left
    rw [htree] at hsettle
    obtain ⟨s₂, own, -, hown, rfl⟩ := yields_settle_binding.1 hsettle
    have hext := hv.extends_after h
    rw [hafter] at hext
    exact Ty.exists_freeRegions hext hown
  | call info callee args blockArgs type =>
    intro sig hsig hpresent
    refine ⟨fun e he => hv.balanced h htree hsig he, fun regs hregs => ?_⟩
    obtain ⟨⟨result, hsubst⟩, -⟩ := Visit.substitutes htree hsig hpresent
    refine Ty.exists_subst (hv.extends_found h) (passing_eq_nil ?_) hsubst
    rw [Visit.length_blockRegions htree, hregs]
  | _ => trivial

theorem decided (h : check symbols options table m = (.ok report, F)) :
    ∀ n ∈ m.tree.nodes, n.Decided (m.env symbols options) F := by
  intro n hn
  obtain ⟨v, hv, rfl⟩ := exists_visit h hn
  exact hv.decided h

/-! ## The second check -/

theorem start_frozen (m : Module) (F : Table) : Frozen F (m.start F) :=
  ⟨rfl, fun _ he => absurd he List.not_mem_nil⟩

theorem check_of_judged (h : check symbols options table m = (.ok report, F)) {reg : RegionSet}
    {a : Annotations} (hj : Judged (m.env symbols options) F {} m.tree m.startAnnotations reg a) :
    ∃ again, check symbols options F m = (.ok again, F) ∧ again.annotations = a := by
  obtain ⟨s, hnode, rfl, hs⟩ := yields_of_judged (s := m.start F) hj (start_frozen m F) (decided h)
  obtain ⟨final, hsolve, hann, hfinal⟩ := hs.exists_solveAt (m.env symbols options) m.info.token
  exact ⟨_, check_eq_ok.2 ⟨reg, s, final, hnode, hsolve, rfl, hfinal.table_eq.symm⟩, hann⟩

theorem nodes_eq (h : check symbols options table m = (.ok report, F)) :
    report.stats.nodes = m.tree.nodes.length := by
  obtain ⟨reg, s, final, hnode, hsolve, rfl, -⟩ := check_eq_ok.1 h
  have hcount := nodes_node hnode
  have hkeep := ((equates_solveAt hsolve).steps Tree.hole.settling).nodes_eq fun _ => id
  show final.nodes = _
  rw [hkeep, hcount]
  exact Nat.zero_add _

/-- A run whose visits all agree with a table is judged over it, with the annotations it reports. -/
theorem judged_of_steady {T : Table} (h : check symbols options table m = (.ok report, T))
    (hsteady : ∀ v, m.Visits symbols options table v → v.Steady F) :
    ∃ reg, Judged (m.env symbols options) F {} m.tree m.startAnnotations reg
      report.annotations := by
  obtain ⟨reg, s, final, hnode, hsolve, rfl, -⟩ := check_eq_ok.1 h
  obtain ⟨root, hscope, htree, hbefore, rfl, rfl⟩ := Visit.exists_of_yields m.isHole_tree hnode
  have hj := root.judged fun v hv => hsteady v ⟨root, hscope, htree, hbefore, hv⟩
  rw [hscope, htree, hbefore, ← (equates_solveAt hsolve).annotations_eq] at hj
  exact ⟨_, hj⟩

section
variable {again : CheckReport} (h : check symbols options F m = (.ok again, F))
include h

/-- A check that leaves its table as it is works over this table all the time. -/
theorem Visits.found_eq_of_fixed (hv : m.Visits symbols options F v) : v.found.store.table = F :=
  (hv.extends_found h).antisymm (hv.extends_before.trans v.extends_found)

theorem Visits.after_eq_of_fixed (hv : m.Visits symbols options F v) : v.after.store.table = F :=
  (hv.extends_after h).antisymm ((hv.extends_before.trans v.extends_found).trans v.extends_after)

theorem Visits.symbol?_of_fixed (hv : m.Visits symbols options F v) {info : Anchor}
    {symbol : SymbolId} {type : Ty} {init : Tree}
    (htree : v.tree = .binding info symbol type init) :
    v.after.annotations.symbol? symbol = some (type.regionsIn F) := by
  have hF := hv.after_eq_of_fixed h
  obtain ⟨-, -, s₁, hsettle, hafter⟩ := yields_leave.1 v.left
  rw [htree] at hsettle
  obtain ⟨s₂, own, -, hown, rfl⟩ := yields_settle_binding.1 hsettle
  rw [hafter] at hF ⊢
  have hF : s₂.store.table = F := hF
  rw [hF] at hown
  simp [Annotations.annotateNode, Annotations.symbol?, Annotations.annotateSymbol, Ty.regionsIn,
    hown, Except.toOption]

theorem Visits.call_slot_of_fixed (hv : m.Visits symbols options F v) {info : Anchor}
    {callee : Tree} {args blockArgs : List Tree} {type : Ty} {sig : CallSignature}
    (htree : v.tree = .call info callee args blockArgs type)
    (hsig : calleeSignature (m.env symbols options) callee = some sig) {e : Equation}
    (he : e ∈ type.pairs sig.result) {sa sb : RegionSet} (hsa : F.Knows e.left sa)
    (hsb : F.Knows e.right sb) :
    sa = (sig.passing (v.blockRegions args)).onSet sb := by
  rcases hv.call_slot_eq h htree hsig he hsa hsb with ⟨-, heq⟩ | ⟨hopen, -⟩
  · exact heq
  · rw [hv.found_eq_of_fixed h] at hopen
    exact absurd hopen hsb.not_open

theorem Visits.steady_of_fixed (hv : m.Visits symbols options F v) : v.Steady F := by
  refine v.steady (hv.extends_after h) ?_
    (fun info symbol type init htree => hv.symbol?_of_fixed h htree)
    fun info callee args blockArgs type sig htree hsig e he sa sb hsa hsb =>
      hv.call_slot_of_fixed h htree hsig he hsa hsb
  intro type terms term set htype hslots hterm hknows
  exact v.not_confines htype hslots hterm ((hv.found_eq_of_fixed h).symm ▸ hknows)

end

/-! ## When the second check agrees with the first -/

theorem regionIn_congr {a b : Annotations} (h : a.Same b) (t : Tree) :
    t.regionIn a = t.regionIn b := by
  simp [Tree.regionIn, h.nodes]

theorem reproduced_iff_judged (h : check symbols options table m = (.ok report, F)) :
    m.Reproduced symbols options F report ↔
      ∃ reg a, Judged (m.env symbols options) F {} m.tree m.startAnnotations reg a ∧
        a.Same report.annotations := by
  constructor
  · rintro ⟨again, hagain, hsame, -⟩
    obtain ⟨reg, hj⟩ := judged_of_steady hagain fun v hv => hv.steady_of_fixed hagain
    exact ⟨reg, again.annotations, hj, hsame⟩
  · rintro ⟨reg, a, hj, hsame⟩
    obtain ⟨again, hagain, rfl⟩ := check_of_judged h hj
    exact ⟨again, hagain, hsame, (nodes_eq hagain).trans (nodes_eq h).symm⟩

theorem stable_of_reproduced (hids : m.tree.ids.Nodup) (hbinders : m.tree.allBinders.Nodup)
    (hrep : m.Reproduced symbols options F report) : m.Stable symbols F report.annotations := by
  obtain ⟨again, hagain, hsame, -⟩ := hrep
  refine ⟨fun info symbol type init hn => ?_,
    fun n hn type terms term set htype hslots hterm hknows => ?_,
    fun info place symbol args blockArgs type sig hn hsig e he sa sb hsa hsb => ?_⟩
  · obtain ⟨v, hv, htree⟩ := exists_visit hagain hn
    have hown : symbol ∈ v.tree.allBinders :=
      (Tree.own_sub_footprint v.present).symbols symbol (by simp [Tree.own, htree, Tree.introduced])
    rw [← hsame.symbols, hv.symbol?_report hagain hbinders hown]
    exact hv.symbol?_of_fixed hagain htree
  · obtain ⟨v, hv, rfl⟩ := exists_visit hagain hn
    exact v.not_confines htype hslots hterm ((hv.found_eq_of_fixed hagain).symm ▸ hknows)
  · obtain ⟨v, hv, htree⟩ := exists_visit hagain hn
    have heq := hv.call_slot_of_fixed hagain htree
      (show calleeSignature _ (.ref place symbol) = some sig from hsig) he
      hsa hsb
    rw [hv.blockRegions_eq hagain hids htree] at heq
    rwa [List.map_congr_left fun b _ => regionIn_congr hsame b] at heq

theorem Visits.steady_of_stable (hv : m.Visits symbols options table v)
    (h : check symbols options table m = (.ok report, F)) (hids : m.tree.ids.Nodup)
    (hbinders : m.tree.allBinders.Nodup)
    (hstable : m.Stable symbols F report.annotations) : v.Steady F := by
  refine v.steady (hv.extends_after h) (hstable.confined v.tree hv.mem_nodes) ?_ ?_
  · intro info symbol type init htree
    have hown : symbol ∈ v.tree.allBinders :=
      (Tree.own_sub_footprint v.present).symbols symbol (by simp [Tree.own, htree, Tree.introduced])
    rw [← hv.symbol?_report h hbinders hown]
    exact hstable.bindings info symbol type init (htree ▸ hv.mem_nodes)
  · intro info callee args blockArgs type sig htree hsig e he sa sb hsa hsb
    rw [hv.blockRegions_eq h hids htree]
    cases callee with
    | ref place symbol =>
      exact hstable.replaced info place symbol args blockArgs type sig
        (htree ▸ hv.mem_nodes) hsig e he sa sb hsa hsb
    | _ => cases hsig

/-- Checking an accepted unit again over the table that the first check left accepts it with the
same annotations and leaves the table as it is iff the reported annotations are judged over this
table. If every node has a number and every binder a symbol of its own, it does so iff the report is
stable. -/
theorem recheck_iff (h : check symbols options table m = (.ok report, F)) :
    (m.Reproduced symbols options F report ↔
      ∃ reg a, Judged (m.env symbols options) F {} m.tree m.startAnnotations reg a ∧
        a.Same report.annotations) ∧
    (m.tree.ids.Nodup → m.tree.allBinders.Nodup →
      (m.Reproduced symbols options F report ↔ m.Stable symbols F report.annotations)) := by
  refine ⟨reproduced_iff_judged h,
    fun hids hbinders => ⟨stable_of_reproduced hids hbinders, fun hstable => ?_⟩⟩
  obtain ⟨reg, hj⟩ := judged_of_steady h fun v hv => hv.steady_of_stable h hids hbinders hstable
  exact (reproduced_iff_judged h).2 ⟨reg, _, hj, ⟨fun _ => rfl, fun _ => rfl, fun _ => rfl⟩⟩

/-- Checked after its callee, a call reads the same slots again, so the report is reproduced and
stable. -/
theorem recheck_iff_calleeFirst :
    ∃ report, check {} {} ⟨[none, none]⟩ (makerUnit [maker, makerCaller]) =
        (.ok report, ⟨[some (.singleton 5), some (.singleton 3)]⟩) ∧
      (makerUnit [maker, makerCaller]).tree.ids.Nodup ∧
      (makerUnit [maker, makerCaller]).tree.allBinders.Nodup ∧
      (makerUnit [maker, makerCaller]).Reproduced {} {}
        ⟨[some (.singleton 5), some (.singleton 3)]⟩ report ∧
      (makerUnit [maker, makerCaller]).Stable {}
        ⟨[some (.singleton 5), some (.singleton 3)]⟩ report.annotations := by
  obtain ⟨again, hagain, hlisting⟩ := exists_report (f := fun r => r.annotations.listing)
    (F := ⟨[some (.singleton 5), some (.singleton 3)]⟩)
    (x := (((check {} {} ⟨[none, none]⟩ (makerUnit [maker, makerCaller])).1.toOption.map
      fun r => r.annotations.listing).getD default))
    (show (check {} {} ⟨[some (.singleton 5), some (.singleton 3)]⟩
      (makerUnit [maker, makerCaller])).1.toOption.map _ = _ by decide +kernel)
    (by decide +kernel)
  obtain ⟨report, hreport, hsame⟩ := exists_report (f := fun r => r.annotations.listing)
    (F := ⟨[some (.singleton 5), some (.singleton 3)]⟩) (x := again.annotations.listing)
    (show (check {} {} ⟨[none, none]⟩ (makerUnit [maker, makerCaller])).1.toOption.map _ = _ by
      rw [hlisting]; decide +kernel)
    (by decide +kernel)
  have hids : (makerUnit [maker, makerCaller]).tree.ids.Nodup := by decide
  have hbinders : (makerUnit [maker, makerCaller]).tree.allBinders.Nodup := by decide
  have hrep : (makerUnit [maker, makerCaller]).Reproduced {} {}
      ⟨[some (.singleton 5), some (.singleton 3)]⟩ report :=
    ⟨again, hagain, Annotations.same_of_listing hsame.symm,
      (nodes_eq hagain).trans (nodes_eq hreport).symm⟩
  exact ⟨report, hreport, hids, hbinders, hrep, ((recheck_iff hreport).2 hids hbinders).1 hrep⟩

/-- A unit whose first function binds the result of its second one, which captures what an import
captures. -/
def readsEarly : Module where
  info := ⟨11, {}⟩
  name := "unit"
  imports := [⟨5, [], .con "Int" "", .singleton 9⟩]
  defs := [
    .function ⟨6, {}⟩ 1 [] [] (.con "Int" "") (.block ⟨5, {}⟩
      [.binding ⟨3, {}⟩ 3 (closure 1) (.call ⟨2, {}⟩ (.ref ⟨1, {}⟩ 2) [] [] (closure 1)),
        .ref ⟨4, {}⟩ 3]),
    .function ⟨10, {}⟩ 2 [] [] (closure 2)
      (.lambda ⟨9, {}⟩ 4 [] [] (.con "Int" "") (some (.var 2))
        (.call ⟨8, {}⟩ (.ref ⟨7, {}⟩ 5) [] [] (.con "Int" "")))]

/-- The first check finds the slot of the binding open, and the second one finds what it was
resolved to since. -/
theorem recheck_reads_more :
    ∃ report, check {} {} ⟨[none, none]⟩ readsEarly =
      (.ok report, ⟨[some (.singleton 9), some (.singleton 9)]⟩) ∧
      readsEarly.tree.ids.Nodup ∧ readsEarly.tree.allBinders.Nodup ∧
      ¬ readsEarly.Reproduced {} {} ⟨[some (.singleton 9), some (.singleton 9)]⟩ report := by
  obtain ⟨report, hreport, hfirst⟩ :=
    exists_report (f := fun r => r.annotations.symbol? 3) (x := some ∅)
      (F := ⟨[some (.singleton 9), some (.singleton 9)]⟩)
      (show (check {} {} ⟨[none, none]⟩ readsEarly).1.toOption.map _ = _ by decide +kernel)
      (by decide +kernel)
  obtain ⟨again, hagain, hsecond⟩ :=
    exists_report (f := fun r => r.annotations.symbol? 3) (x := some (.singleton 9))
      (F := ⟨[some (.singleton 9), some (.singleton 9)]⟩)
      (show (check {} {} ⟨[some (.singleton 9), some (.singleton 9)]⟩ readsEarly).1.toOption.map _ =
        _ by decide +kernel)
      (by decide +kernel)
  refine ⟨report, hreport, by decide, by decide, ?_⟩
  rintro ⟨again', hagain', hsame, -⟩
  rw [hagain] at hagain'
  cases hagain'
  exact absurd (hsecond.symm.trans ((hsame.symbols 3).trans hfirst)) (by decide)

end Module

end RegionCapture
