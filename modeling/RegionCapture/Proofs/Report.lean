import RegionCapture.Proofs.Escape
import RegionCapture.Proofs.Instantiation

/-!
# What the report on an accepted unit says

The annotations of an accepted unit whose nodes have different numbers fit its tree: the regions
that a node binds are recorded exactly for binders, and a node captures what its children capture
less what it binds (`Module.report_structural`). They also fit its types: the slot of a function
value is known in the end, and bounds what the function value captures
(`Module.slot_bounds_closures`).
-/

namespace RegionCapture

namespace Tree

/-- The symbol that a node reads or writes. -/
def used? : Tree → Option SymbolId
  | ref _ symbol => some symbol
  | assign _ symbol _ => some symbol
  | _ => none

theorem region_of_unused {t : Tree} (h : t.used? = none) (regs : List RegionSet) (a : Annotations) :
    t.region regs a = Check.unionAll regs \ t.bound.getD ∅ := by
  cases t with
  | ref => cases h
  | assign => cases h
  | _ => rfl

end Tree

namespace Check

variable {env : CheckEnv} {scope : Scope} {t : Tree} {ts : List Task} {s s' : CheckState}
  {reg b : RegionSet} {regs : List RegionSet} {u : Unit} {id : NodeId}

/-! ## Recorded scopes -/

theorem scope?_entered (scope : Scope) (t : Tree) (s : CheckState) (id : NodeId) :
    (entered scope t s).annotations.scope? id = s.annotations.scope? id :=
  (t.entry_sameOutside scope s.annotations).scopes id nofun

theorem scope?_resumed (scope : Scope) (r : Option SymbolId) (s : CheckState) (id : NodeId) :
    (resumed scope r s).annotations.scope? id = s.annotations.scope? id := by
  cases r <;> rfl

theorem scope?_leave (h : Yields (leave env scope regs t) s reg s') (id : NodeId) :
    s'.annotations.scope? id = (t.markScope s.annotations).scope? id := by
  obtain ⟨-, -, s₁, hsettle, rfl⟩ := yields_leave.1 h
  exact (steps_settle hsettle).sameOutside.scopes id nofun

theorem scope?_markScope {a : Annotations} (h : t.bound = some b) :
    (t.markScope a).scope? t.id = some b := by
  simp [Tree.markScope, h]

/-- Leaving a node records no scope but that of the node. -/
theorem origin_leave (h : Yields (leave env scope regs t) s reg s')
    (hb : s'.annotations.scope? id = some b) :
    s.annotations.scope? id = some b ∨ (t.id = id ∧ t.bound = some b) := by
  rw [scope?_leave h, Tree.markScope] at hb
  cases hbound : t.bound with
  | none =>
    rw [hbound] at hb
    exact .inl hb
  | some b' =>
    rw [hbound] at hb
    simp only [Option.elim_some, Annotations.scope?_annotateScope] at hb
    split at hb
    · next hid => exact .inr ⟨hid, hb⟩
    · exact .inl hb

theorem origin_tasks (h : Yields (tasks env scope ts) s regs s')
    (ih : ∀ c ∈ ts, ∀ {scope s reg s'}, Yields (node env scope c.tree) s reg s' →
      s'.annotations.scope? id = some b →
      s.annotations.scope? id = some b ∨ ∃ n ∈ c.tree.nodes, n.id = id ∧ n.bound = some b)
    (hb : s'.annotations.scope? id = some b) :
    s.annotations.scope? id = some b ∨
    ∃ c ∈ ts, ∃ n ∈ c.tree.nodes, n.id = id ∧ n.bound = some b := by
  induction ts generalizing s regs with
  | nil => exact .inl ((yields_tasks_nil.1 h).2 ▸ hb)
  | cons c ts ihts =>
    obtain ⟨reg, s₁, regs', hnode, hrest, rfl⟩ := yields_tasks_cons.1 h
    rcases ihts hrest fun d hd => ih d (List.mem_cons_of_mem c hd) with hs₁ | ⟨d, hd, hn⟩
    · rcases ih c List.mem_cons_self hnode hs₁ with hs | hn
      · exact .inl (scope?_resumed scope c.resume s id ▸ hs)
      · exact .inr ⟨c, List.mem_cons_self, hn⟩
    · exact .inr ⟨d, List.mem_cons_of_mem c hd, hn⟩

/-- Checking a tree records no scopes but those of its binders. -/
theorem origin_node (h : Yields (node env scope t) s reg s')
    (hb : s'.annotations.scope? id = some b) :
    s.annotations.scope? id = some b ∨ ∃ n ∈ t.nodes, n.id = id ∧ n.bound = some b := by
  induction t using Tree.induction_on_tasks generalizing scope s reg s' with
  | step t ih =>
    cases hhole : t.isHole with
    | true =>
      rw [Tree.eq_hole hhole] at h
      exact .inl ((yields_hole.1 h).2 ▸ hb)
    | false =>
      obtain ⟨regs, s₁, hbelow, hleave⟩ := (yields_node hhole).1 h
      rcases origin_leave hleave hb with hs₁ | hown
      · rcases origin_tasks hbelow (fun c hc => ih c hc) hs₁ with hs | ⟨c, hc, n, hn, hbinds⟩
        · exact .inl (scope?_entered scope t s id ▸ hs)
        · exact .inr ⟨n, Tree.mem_nodes.2 ⟨hhole, .inr ⟨c, hc, hn⟩⟩, hbinds⟩
      · exact .inr ⟨t, Tree.mem_nodes.2 ⟨hhole, .inl rfl⟩, hown⟩

end Check

namespace Module

open Check

variable {symbols : SymbolTable} {options : Options} {table F : Table} {m : Module}
  {report : CheckReport} {v : Visit (m.env symbols options)}

/-- What holds of no annotations, and is kept when a symbol of an import or of a function is
annotated, holds of the annotations a check starts with. -/
theorem startAnnotations_induction {P : Annotations → Prop} (m : Module) (base : P {})
    (imported : ∀ a, ∀ i ∈ m.imports, P a → P (a.annotateSymbol i.symbol i.region))
    (defined : ∀ a symbol, P a → P (a.annotateSymbol symbol ∅)) : P m.startAnnotations := by
  refine List.foldlRecOn (motive := P) m.defs _ ?_ fun a ha t _ => ?_
  · exact List.foldlRecOn (motive := P) m.imports _ base fun a ha i hi => imported a i hi ha
  · split
    · exact defined a _ ha
    · exact ha

theorem scope?_startAnnotations (m : Module) (id : NodeId) : m.startAnnotations.scope? id = none :=
  m.startAnnotations_induction (P := fun a => a.scope? id = none) rfl (fun _ _ _ ha => ha)
    fun _ _ ha => ha

theorem Visits.scope?_report (hv : m.Visits symbols options table v)
    (h : check symbols options table m = (.ok report, F)) (hids : m.tree.ids.Nodup) {b : RegionSet}
    (hb : v.tree.bound = some b) : report.annotations.scope? v.tree.id = some b := by
  obtain ⟨final, hsteps, rfl, -, -⟩ := hv.steps h
  have hself : v.tree.id ∈ v.tree.ids := by
    rw [Tree.ids_eq v.present]
    exact List.mem_cons_self
  have hafter : v.after.annotations.scope? v.tree.id = some b := by
    rw [scope?_leave v.left, scope?_markScope hb]
  exact (hsteps.sameOutside.scopes _ fun hout => hout hids hself).trans hafter

theorem scope?_report_iff (h : check symbols options table m = (.ok report, F))
    (hids : m.tree.ids.Nodup) {id : NodeId} {b : RegionSet} :
    report.annotations.scope? id = some b ↔
      ∃ n ∈ m.tree.nodes, n.id = id ∧ n.bound = some b := by
  constructor
  · intro hb
    obtain ⟨reg, s, final, hnode, hsolve, rfl, -⟩ := check_eq_ok.1 h
    have hs : s.annotations.scope? id = some b := (equates_solveAt hsolve).annotations_eq ▸ hb
    rcases origin_node hnode hs with hstart | hn
    · rw [show (m.start table).annotations = m.startAnnotations from rfl,
        scope?_startAnnotations] at hstart
      cases hstart
    · exact hn
  · rintro ⟨n, hn, rfl, hb⟩
    obtain ⟨v, hv, rfl⟩ := exists_visit h hn
    exact hv.scope?_report h hids hb

/-- A node has a scope in the report if it is a binder, and then the regions it binds. -/
theorem scope?_report_eq (h : check symbols options table m = (.ok report, F))
    (hids : m.tree.ids.Nodup) {n : Tree} (hn : n ∈ m.tree.nodes) :
    report.annotations.scope? n.id = n.bound := by
  refine Option.ext fun b => ?_
  rw [scope?_report_iff h hids]
  constructor
  · rintro ⟨n', hn', hid, hb⟩
    rwa [← List.inj_on_of_nodup_map hids hn' hn hid]
  · exact fun hb => ⟨n, hn, rfl, hb⟩

/-! ## The structural equation -/

/-- Holes among the trees below a node add nothing to what its children capture. -/
theorem unionAll_children (t : Tree) (a : Annotations) :
    unionAll (t.tasks.map fun c => c.tree.regionIn a) =
      unionAll (t.children.map (Tree.regionIn a)) := by
  refine RegionSet.ext_mem fun r => ?_
  have hhole : ∀ u : Tree, r ∈ u.regionIn a → u.isHole = false := by
    intro u hr
    cases hu : u.isHole with
    | true => simp [Tree.regionIn, hu] at hr
    | false => rfl
  simp only [Tree.children_eq_present, Tree.present, mem_unionAll, List.mem_map, List.mem_filter]
  constructor
  · rintro ⟨_, ⟨c, hc, rfl⟩, hr⟩
    exact ⟨_, ⟨c.tree, ⟨⟨c, hc, rfl⟩, by simp [hhole c.tree hr]⟩, rfl⟩, hr⟩
  · rintro ⟨_, ⟨_, ⟨⟨c, hc, rfl⟩, -⟩, rfl⟩, hr⟩
    exact ⟨_, ⟨c, hc, rfl⟩, hr⟩

/-- The annotations fit the tree of the unit. -/
structure Structural (m : Module) (a : Annotations) : Prop where
  /-- every node is annotated -/
  annotated : ∀ n ∈ m.tree.nodes, ∃ reg, a.node? n.id = some reg
  /-- the regions that a node binds are recorded exactly for binders -/
  scopes : ∀ id b, a.scope? id = some b ↔ ∃ n ∈ m.tree.nodes, n.id = id ∧ n.bound = some b
  /-- a node that names no symbol captures what its children capture, less what it binds -/
  nodes : ∀ n ∈ m.tree.nodes, n.used? = none →
    a.node? n.id = some (unionAll (n.children.map (Tree.regionIn a)) \ (a.scope? n.id).getD ∅)
  /-- no binder captures a region it binds -/
  binders : ∀ n ∈ m.tree.nodes,
    ∀ b reg, a.scope? n.id = some b → a.node? n.id = some reg → ∀ r ∈ reg, r ∉ b
  /-- an assignment captures what its value captures -/
  assigned : ∀ info symbol value, .assign info symbol value ∈ m.tree.nodes →
    ∃ reg, a.node? info.id = some reg ∧ ∀ r ∈ value.regionIn a, r ∈ reg

theorem Visits.node?_eq (hv : m.Visits symbols options table v)
    (h : check symbols options table m = (.ok report, F)) (hids : m.tree.ids.Nodup)
    (hunused : v.tree.used? = none) : report.annotations.node? v.tree.id =
      some (unionAll (v.tree.children.map (Tree.regionIn report.annotations)) \
        v.tree.bound.getD ∅) := by
  obtain ⟨hregion, -⟩ := yields_leave.1 v.left
  rw [hv.node?_report h hids, hregion, Tree.region_of_unused hunused, hv.regs_eq h hids,
    unionAll_children]

theorem unused_of_bound {n : Tree} {b : RegionSet} (h : n.bound = some b) : n.used? = none := by
  cases n with
  | ref => cases h
  | assign => cases h
  | _ => rfl

/-- In an accepted unit whose nodes have different numbers, the regions that a node binds are
recorded exactly for functions, function values, block arguments and handlers; a node captures the
union of what its children capture less what it binds, unless it reads or writes a symbol; and an
assignment captures at least what its value captures. -/
theorem report_structural (h : check symbols options table m = (.ok report, F))
    (hids : m.tree.ids.Nodup) :
    m.Structural report.annotations where
  annotated n hn := by
    obtain ⟨v, hv, rfl⟩ := exists_visit h hn
    exact ⟨_, hv.node?_report h hids⟩
  scopes id b := scope?_report_iff h hids
  nodes n hn hunused := by
    obtain ⟨v, hv, rfl⟩ := exists_visit h hn
    rw [scope?_report_eq h hids hn, hv.node?_eq h hids hunused]
  binders n hn b reg hb hreg := by
    obtain ⟨v, hv, rfl⟩ := exists_visit h hn
    rw [scope?_report_eq h hids hn] at hb
    rw [hv.node?_eq h hids (unused_of_bound hb), hb] at hreg
    cases hreg
    exact fun r hr => (RegionSet.mem_sdiff.1 hr).2
  assigned info symbol value hn := by
    obtain ⟨v, hv, htree⟩ := exists_visit h hn
    obtain ⟨hregion, -⟩ := yields_leave.1 v.left
    have hnode := hv.node?_report h hids
    have hregs := hv.regs_eq h hids
    rw [htree] at hnode hregion hregs
    refine ⟨v.region, hnode, fun r hr => ?_⟩
    rw [hregion, hregs]
    simp [Tree.region, Tree.tasks, Tree.task, hr]

/-- A unit with one binder of each kind: a function with a block, two function values that share a
slot, and a handler whose clause assigns to a cell around it; the handled body passes a block on. -/
def oneOfEach : Module where
  info := ⟨18, {}⟩
  name := "unit"
  imports := []
  defs := [.function ⟨17, {}⟩ 1 [] [2] (.con "Int" "") (.block ⟨16, {}⟩ [
    .cell ⟨2, {}⟩ 3 (.literal ⟨1, {}⟩ "0"),
    .handle ⟨11, {}⟩
      (.call ⟨6, {}⟩ (.ref ⟨3, {}⟩ 2) [] [.blockArg ⟨5, {}⟩ [] [4] (.ref ⟨4, {}⟩ 4)]
        (.con "Int" ""))
      [⟨{}, 5, "Read", [⟨8, [], 6,
        .assign ⟨10, {}⟩ 3 (.call ⟨9, {}⟩ (.ref ⟨7, {}⟩ 6) [.ref ⟨8, {}⟩ 5] [] (.con "Int" ""))⟩]⟩]
      (.con "Int" ""),
    .lambda ⟨13, {}⟩ 7 [] [] (.con "Int" "") (some (.var 1)) (.ref ⟨12, {}⟩ 2),
    .lambda ⟨15, {}⟩ 9 [] [] (.con "Int" "") (some (.var 1)) (.literal ⟨14, {}⟩ "0")])]

theorem report_structural_oneOfEach :
    ∃ report, check {} {} ⟨[none]⟩ oneOfEach = (.ok report, ⟨[some (.singleton 2)]⟩) ∧
      oneOfEach.tree.ids.Nodup ∧
      report.annotations.node? 11 = some (.ofList [1, 2]) ∧
      oneOfEach.Structural report.annotations := by
  obtain ⟨report, hcheck, hnode⟩ := exists_report (f := fun r => r.annotations.node? 11)
    (x := some (.ofList [1, 2])) (F := ⟨[some (.singleton 2)]⟩)
    (show (check {} {} ⟨[none]⟩ oneOfEach).1.toOption.map _ = _ by decide +kernel)
    (by decide +kernel)
  have hids : oneOfEach.tree.ids.Nodup := by decide
  exact ⟨report, hcheck, hids, hnode, report_structural hcheck hids⟩

/-! ## Function values and their slots -/

/-- In an accepted unit whose nodes have different numbers, the slot of a function value is known in
the end, and all function values that share the slot capture no more than its set. -/
theorem slot_bounds_closures (h : check symbols options table m = (.ok report, F))
    (hids : m.tree.ids.Nodup) {l : Tree} (hl : l ∈ m.tree.nodes) {term : Term}
    (hslot : l.slot? = some term) :
    ∃ set, F.Knows term set ∧ ∀ l' ∈ m.tree.nodes, l'.slot? = some term →
      ∃ reg, report.annotations.node? l'.id = some reg ∧ ∀ r ∈ reg, r ∈ set := by
  have hall : ∀ l ∈ m.tree.nodes, l.slot? = some term → ∃ set, F.Knows term set ∧
      ∃ reg, report.annotations.node? l.id = some reg ∧ ∀ r ∈ reg, r ∈ set := by
    intro l hl hslot
    obtain ⟨v, hv, rfl⟩ := exists_visit h hl
    obtain ⟨set, hknows, hbounds⟩ := v.knows_slot hslot
    exact ⟨set, (hv.extends_after h).knows hknows, v.region, hv.node?_report h hids, hbounds⟩
  obtain ⟨set, hknows, -⟩ := hall l hl hslot
  refine ⟨set, hknows, fun l' hl' hslot' => ?_⟩
  -- a table knows one set for the slot, so it is the same one for every function value
  obtain ⟨set', hknows', hbounds⟩ := hall l' hl' hslot'
  rwa [hknows.unique hknows']

/-- The first function value resolves the slot to the block it runs, and the second captures
less. -/
theorem slot_bounds_closures_oneOfEach :
    ∃ report, check {} {} ⟨[none]⟩ oneOfEach = (.ok report, ⟨[some (.singleton 2)]⟩) ∧
      oneOfEach.tree.ids.Nodup ∧
      report.annotations.node? 13 = some (.singleton 2) ∧
      ∃ reg, report.annotations.node? 15 = some reg ∧ ∀ r ∈ reg, r = 2 := by
  obtain ⟨report, hcheck, hnode⟩ := exists_report (f := fun r => r.annotations.node? 13)
    (x := some (.singleton 2)) (F := ⟨[some (.singleton 2)]⟩)
    (show (check {} {} ⟨[none]⟩ oneOfEach).1.toOption.map _ = _ by decide +kernel)
    (by decide +kernel)
  have hids : oneOfEach.tree.ids.Nodup := by decide
  have hfirst := List.mem_of_getElem? (l := oneOfEach.tree.nodes) (i := 14) rfl
  have hsecond := List.mem_of_getElem? (l := oneOfEach.tree.nodes) (i := 16) rfl
  obtain ⟨set, hknows, hall⟩ := slot_bounds_closures hcheck hids hfirst rfl
  obtain ⟨reg, hreg, hbound⟩ := hall _ hsecond rfl
  have hset : .singleton 2 = set := Option.some.inj (Except.ok.inj hknows)
  exact ⟨report, hcheck, hids, hnode, reg, hreg,
    fun r hr => RegionSet.mem_singleton.1 (hset ▸ hbound r hr)⟩

end Module

end RegionCapture
