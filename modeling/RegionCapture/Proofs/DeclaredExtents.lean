import RegionCapture.Proofs.BoundOnce
import RegionCapture.Proofs.ScopeVerification

/-!
# Symbols capture declared extents

What the symbols of an accepted unit capture can be read off the places of their binders. The extent
of a place is opened by the innermost definition or handler around it (`Tree.extent`), and the block
parameters of the block arguments entered since then widen it to the static region of the place
(`Tree.staticAt`). The scope of a visit is that of its place (`Module.exists_visit_at`), and a
symbol that is bound once ends with what its own binder gave it. Main statement
`Module.symbols_declared`.
-/

namespace RegionCapture

namespace Tree

/-- The extent that a node opens for the trees below it: a definition runs in its own region, and
what is handled runs under all capabilities of its handlers. -/
def opens? : Tree → Option RegionSet
  | function _ symbol _ _ _ _ => some (.singleton (.ofSymbol symbol))
  | lambda _ symbol _ _ _ _ _ => some (.singleton (.ofSymbol symbol))
  | handle _ _ handlers _ => some (regionsOf (handlers.map Handler.capability))
  | _ => none

/-- The symbols that a node binds with regions of their own: block parameters and handled
capabilities. -/
def ownBinders : Tree → List SymbolId
  | function _ _ _ blocks _ _ => blocks
  | lambda _ _ _ blocks _ _ _ => blocks
  | blockArg _ _ blocks _ => blocks
  | handle _ _ handlers _ => handlers.map Handler.capability
  | _ => []

/-- The extent of a place, given by the nodes around it: that of the innermost node that opens
one. -/
def extent (around : List Tree) : RegionSet := (around.findSome? opens?).getD ∅

/-- The block parameters bound around a place within its extent, where only block arguments bind
any. -/
def blocksSince (around : List Tree) : List SymbolId :=
  (around.takeWhile fun n => n.opens?.isNone).flatMap ownBinders

/-- The static region of a place: its extent and the block parameters bound since the extent was
opened. -/
def staticAt (around : List Tree) : RegionSet := extent around ∪ regionsOf (blocksSince around)

/-! ## The scope of a place -/

/-- The scope in which a place is checked. -/
def scopeAt (around : List Tree) : Scope := around.foldr (fun n scope => n.inner scope) {}

/-- A node that opens an extent replaces what the scope had before. -/
theorem inner_of_opens {n : Tree} {reg : RegionSet} (h : n.opens? = some reg) (scope : Scope) :
    (n.inner scope).static = reg ∧ (n.inner scope).dynamic = reg := by
  cases n with
  | function | lambda | handle =>
    cases h
    exact ⟨rfl, rfl⟩
  | _ => cases h

/-- Any other node only widens the static region, by the block parameters it binds. -/
theorem inner_of_not_opens {n : Tree} (h : n.opens? = none) (scope : Scope) :
    (n.inner scope).static = scope.static ∪ regionsOf n.ownBinders ∧
    (n.inner scope).dynamic = scope.dynamic := by
  have hnone : scope.static = scope.static ∪ regionsOf [] := RegionSet.ext_mem fun r => by
    simp [regionsOf]
  cases n with
  | function | lambda | handle => cases h
  | blockArg => exact ⟨rfl, rfl⟩
  | _ => exact ⟨hnone, rfl⟩

theorem extent_cons (n : Tree) (around : List Tree) :
    extent (n :: around) = n.opens?.getD (extent around) := by
  simp only [extent, List.findSome?_cons]
  cases n.opens? <;> rfl

theorem blocksSince_cons (n : Tree) (around : List Tree) :
    blocksSince (n :: around) = if n.opens?.isNone then n.ownBinders ++ blocksSince around
      else [] := by
  simp only [blocksSince, List.takeWhile_cons]
  cases n.opens? <;> rfl

theorem dynamic_scopeAt (around : List Tree) : (scopeAt around).dynamic = extent around := by
  induction around with
  | nil => rfl
  | cons n around ih =>
    rw [extent_cons, ← ih]
    cases hopens : n.opens? with
    | some reg => exact (inner_of_opens hopens _).2
    | none => exact (inner_of_not_opens hopens _).2

theorem static_scopeAt (around : List Tree) : (scopeAt around).static = staticAt around := by
  induction around with
  | nil => rfl
  | cons n around ih =>
    refine RegionSet.ext_mem fun r => ?_
    simp only [staticAt, extent_cons, blocksSince_cons]
    cases hopens : n.opens? with
    | some reg =>
      rw [show scopeAt (n :: around) = n.inner (scopeAt around) from rfl,
        (inner_of_opens hopens _).1]
      simp [regionsOf]
    | none =>
      rw [show scopeAt (n :: around) = n.inner (scopeAt around) from rfl,
        (inner_of_not_opens hopens _).1, ih]
      simp only [staticAt, RegionSet.mem_union, Check.mem_regionsOf, Option.getD_none,
        Option.isNone_none, if_true, List.mem_append]
      grind

/-! ## Symbols with regions of their own -/

variable {t : Tree} {x : SymbolId}

theorem ownBinders_subset_introduced (t : Tree) : t.ownBinders ⊆ t.introduced := by
  cases t with
  | function | lambda => exact List.subset_cons_self _ _
  | blockArg | handle => exact List.Subset.refl _
  | _ => exact List.nil_subset _

theorem symbol?_entry_of_own (hx : x ∈ t.ownBinders) (scope : Scope) (a : Annotations) :
    (t.entry scope a).symbol? x = some (.singleton (.ofSymbol x)) := by
  cases t with
  | function | lambda | blockArg | handle => exact (symbol?_ownRegions _ _ x).trans (if_pos hx)
  | _ => cases hx

theorem introduced_nodup (h : t.isHole = false) (hnodup : t.allBinders.Nodup) :
    t.introduced.Nodup :=
  (List.nodup_append.1 ((allBinders_perm h).nodup_iff.1 hnodup)).1

theorem definition?_mem_introduced (h : t.definition? = some x) : x ∈ t.introduced := by
  cases t with
  | function | lambda =>
    cases h
    exact List.mem_cons_self
  | _ => cases h

/-- The symbol that a definition completes is none of its block parameters. -/
theorem completes?_ne_of_own (hnodup : t.introduced.Nodup) (hx : x ∈ t.ownBinders) :
    t.completes? ≠ some x := by
  intro hsymbol
  cases t with
  | function | lambda =>
    cases hsymbol
    exact (List.nodup_cons.1 hnodup).1 hx
  | binding => cases hx
  | _ => cases hsymbol

end Tree

namespace Check.Visit

variable {env : CheckEnv} {v : Visit env} {x : SymbolId}

/-- What a node introduces and does not complete is left as it was entered. -/
theorem symbol?_after (v : Visit env) (hnodup : v.tree.allBinders.Nodup)
    (hx : x ∈ v.tree.introduced) (hother : v.tree.completes? ≠ some x) :
    v.after.annotations.symbol? x = (v.tree.entry v.scope v.before.annotations).symbol? x :=
  (symbol?_leave v.left hother).trans (v.symbol?_found hnodup hx)

/-- A resumption is left with the extent of its clause. -/
theorem symbol?_resumption (v : Visit env) (hnodup : v.tree.allBinders.Nodup) {c : Task}
    (hc : c ∈ v.tree.tasks) (hx : c.resume = some x) :
    v.after.annotations.symbol? x = some (v.tree.inner v.scope).dynamic := by
  obtain ⟨i, hi⟩ := List.mem_iff_getElem?.1 hc
  obtain ⟨ts, us, regs, s, reg, s', regs', -, hsplit, -, hnode, hlater, -⟩ := v.yields_at hi
  have hdistinct := List.nodup_append.1 (Tree.nodup_split v.present hnodup hsplit)
  have hown : x ∈ c.resume.toList := by simp [hx]
  -- neither the body of the clause, nor later clauses, nor the handler itself annotate the symbol
  have hlater_ne : x ∉ c.tree.allBinders ++ us.flatMap Task.binders := fun hin =>
    (List.nodup_append.1 (List.nodup_append.1 hdistinct.2.1).2.1).2.2 x hown x hin rfl
  have hbody : x ∉ c.tree.allBinders := fun hin => hlater_ne (List.mem_append_left _ hin)
  have hclauses : ¬ (Tree.footprints us).symbols x := fun hin =>
    hlater_ne (List.mem_append_right _ (Tree.mem_footprints.1 hin))
  have hself : x ∉ v.tree.introduced := fun hin =>
    hdistinct.2.2 x hin x (List.mem_append_right _ (List.mem_append_left _ hown)) rfl
  calc v.after.annotations.symbol? x = v.found.annotations.symbol? x :=
    (steps_leave v.left).sameOutside.symbols x hself
      _ = s'.annotations.symbol? x := (steps_tasks hlater).sameOutside.symbols x hclauses
      _ = (resumed (v.tree.inner v.scope) c.resume s).annotations.symbol? x :=
        (steps_node hnode).sameOutside.symbols x hbody
      _ = some (v.tree.inner v.scope).dynamic := by simp [resumed, hx]

/-- A reference captures what its symbol is annotated with when it is reached. -/
theorem region_ref {info : Anchor} (h : v.tree = .ref info x) :
    v.region = v.before.annotations.symbolRegion x := by
  obtain ⟨hregion, -⟩ := yields_leave.1 v.left
  have hbelow := v.below
  rw [h] at hregion hbelow
  obtain ⟨-, hfound⟩ := yields_tasks_nil.1 hbelow
  rw [hregion, ← hfound]
  rfl

end Check.Visit

namespace Module

open Check

variable {symbols : SymbolTable} {options : Options} {table F : Table} {m : Module}
  {report : CheckReport}

/-- Every place of an accepted unit is visited, in the scope of the place. -/
theorem exists_visit_at (h : check symbols options table m = (.ok report, F)) {around : List Tree}
    {n : Tree} (hn : m.tree.Stands around n) :
    ∃ v, m.Visits symbols options table v ∧ v.tree = n ∧ v.scope = Tree.scopeAt around := by
  induction hn with
  | root =>
    obtain ⟨reg, s, final, hnode, -⟩ := check_eq_ok.1 h
    obtain ⟨root, hscope, htree, hbefore, -⟩ := Visit.exists_of_yields m.isHole_tree hnode
    exact ⟨root, ⟨root, hscope, htree, hbefore, .refl root⟩, htree, hscope⟩
  | @child around n c _ hmem ih =>
    obtain ⟨v, hv, rfl, hscope⟩ := ih
    rw [Tree.children_eq_present] at hmem
    obtain ⟨hmem, hhole⟩ := List.mem_filter.1 hmem
    obtain ⟨task, htask, rfl⟩ := List.mem_map.1 hmem
    obtain ⟨i, hi⟩ := List.mem_iff_getElem?.1 htask
    obtain ⟨w, hchild, hw, -⟩ := v.exists_child hi (by simpa using hhole)
    refine ⟨w, hv.child hchild, hw, ?_⟩
    rw [hchild.scope_eq, hscope]
    rfl

/-- What the symbols and the recursive references of a unit capture is what their places declare. -/
structure SymbolsDeclared (m : Module) (a : Annotations) : Prop where
  /-- a block parameter or a handled capability captures its own region -/
  own : ∀ n ∈ m.tree.nodes, ∀ x ∈ n.ownBinders, a.symbol? x = some (.singleton (.ofSymbol x))
  /-- a resumption captures all capabilities handled around its clause -/
  resumptions : ∀ info body handlers type, .handle info body handlers type ∈ m.tree.nodes →
    ∀ h ∈ handlers, ∀ c ∈ h.clauses, a.symbol? c.resume =
    some (Tree.regionsOf (handlers.map Handler.capability))
  /-- a mutable binding captures the extent of its place -/
  cells : ∀ around info symbol init, m.tree.Stands around (.cell info symbol init) →
    a.symbol? symbol = some (Tree.extent around)
  /-- the symbol of a definition captures what the definition captures -/
  definitions : ∀ n ∈ m.tree.nodes,
    ∀ x, n.definition? = some x → ∃ reg, a.node? n.id = some reg ∧ a.symbol? x = some reg
  /-- a recursive reference captures the static region around the function -/
  recursive : ∀ around info symbol params blocks result body,
    m.tree.Stands around (.function info symbol params blocks result body) →
    ∀ place, .ref place symbol ∈ body.nodes → a.node? place.id = some (Tree.staticAt around)

variable {v : Visit (m.env symbols options)}

/-- The report has what the visit of a node made of the symbols that the node introduces. -/
theorem Visits.symbol?_introduced (hv : m.Visits symbols options table v)
    (h : check symbols options table m = (.ok report, F)) (honce : m.BoundOnce) {x : SymbolId}
    (hx : x ∈ v.tree.introduced) : report.annotations.symbol? x = v.after.annotations.symbol? x :=
  hv.symbol?_report h honce.tree ((Tree.own_sub_footprint v.present).symbols x hx)

theorem Visits.symbol?_own (hv : m.Visits symbols options table v)
    (h : check symbols options table m = (.ok report, F)) (honce : m.BoundOnce) {x : SymbolId}
    (hx : x ∈ v.tree.ownBinders) :
    report.annotations.symbol? x = some (.singleton (.ofSymbol x)) := by
  have hnodup := hv.nodup_binders honce
  have hin := v.tree.ownBinders_subset_introduced hx
  have hother := Tree.completes?_ne_of_own (Tree.introduced_nodup v.present hnodup) hx
  rw [hv.symbol?_introduced h honce hin, v.symbol?_after hnodup hin hother,
    Tree.symbol?_entry_of_own hx]

theorem Visits.symbol?_resumption (hv : m.Visits symbols options table v)
    (h : check symbols options table m = (.ok report, F)) (honce : m.BoundOnce) {c : Task}
    (hc : c ∈ v.tree.tasks) {x : SymbolId} (hx : c.resume = some x) :
    report.annotations.symbol? x = some (v.tree.inner v.scope).dynamic := by
  have hmem : x ∈ c.binders := by simp [Task.binders, hx]
  rw [hv.symbol?_report h honce.tree (Tree.binders_subset_allBinders v.present hc hmem),
    v.symbol?_resumption (hv.nodup_binders honce) hc hx]

/-- At a visit below a function its symbol has the static region around the function. -/
theorem Visits.node?_recursive (hv : m.Visits symbols options table v)
    (h : check symbols options table m = (.ok report, F)) (hids : m.tree.ids.Nodup)
    (honce : m.BoundOnce) {info place : Anchor} {symbol : SymbolId} {params : List Param}
    {blocks : List SymbolId} {result : Ty} {body : Tree}
    (htree : v.tree = .function info symbol params blocks result body)
    (href : .ref place symbol ∈ body.nodes) :
    report.annotations.node? place.id = some v.scope.static := by
  have hnodup := hv.nodup_binders honce
  have htask : body.task ∈ v.tree.tasks := by simp [htree, Tree.tasks]
  obtain ⟨i, w, u, hchild, hwithin, hu⟩ :=
    v.exists_within_child htask href fun w hw => w.exists_within (hw ▸ href)
  have hsymbol := hchild.symbol?_within hwithin hnodup (x := symbol)
    (by simp [htree, Tree.introduced])
  have hblocks : symbol ∉ blocks := by
    have hown := Tree.introduced_nodup v.present hnodup
    rw [htree] at hown
    exact (List.nodup_cons.1 hown).1
  rw [htree] at hsymbol
  simp only [Tree.entry, Tree.symbol?_ownRegions, if_neg hblocks,
    Annotations.symbol?_annotateSymbol, if_true] at hsymbol
  have hnode := ((hv.child hchild).within hwithin).node?_report h hids
  rw [Visit.region_ref hu, Annotations.symbolRegion, hsymbol, hu] at hnode
  exact hnode

/-- In an accepted unit whose nodes have different numbers and in which no symbol is bound twice,
block parameters and handled capabilities capture their own regions, resumptions all capabilities
handled around their clauses, mutable bindings the extent of their place, and definitions what is
recorded for them; a recursive reference captures the static region around the function. -/
theorem symbols_declared (h : check symbols options table m = (.ok report, F))
    (hids : m.tree.ids.Nodup) (honce : m.BoundOnce) : m.SymbolsDeclared report.annotations where
  own n hn x hx := by
    obtain ⟨v, hv, rfl⟩ := exists_visit h hn
    exact hv.symbol?_own h honce hx
  resumptions info body handlers type hn handler hhandler clause hclause := by
    obtain ⟨v, hv, htree⟩ := exists_visit h hn
    have htask : ⟨some clause.resume, clause.body⟩ ∈ v.tree.tasks := by
      rw [htree]
      exact List.mem_cons_of_mem _
        (List.mem_flatMap.2 ⟨handler, hhandler, List.mem_map.2 ⟨clause, hclause, rfl⟩⟩)
    rw [hv.symbol?_resumption h honce htask rfl, htree]
    rfl
  cells around info symbol init hn := by
    obtain ⟨v, hv, htree, hscope⟩ := exists_visit_at h hn
    have hin : symbol ∈ v.tree.introduced := by simp [htree, Tree.introduced]
    have hother : v.tree.completes? ≠ some symbol := by
      simp [htree, Tree.completes?, Tree.definition?]
    rw [hv.symbol?_introduced h honce hin, v.symbol?_after (hv.nodup_binders honce) hin hother,
      htree, hscope]
    simp [Tree.entry, Tree.dynamic_scopeAt]
  definitions n hn x hx := by
    obtain ⟨v, hv, rfl⟩ := exists_visit h hn
    have hin : x ∈ v.tree.introduced := Tree.definition?_mem_introduced hx
    refine ⟨v.region, hv.node?_report h hids, ?_⟩
    rw [hv.symbol?_introduced h honce hin]
    exact symbol?_leave_definition v.left hx
  recursive around info symbol params blocks result body hn place href := by
    obtain ⟨v, hv, htree, hscope⟩ := exists_visit_at h hn
    rw [hv.node?_recursive h hids honce htree href, hscope, Tree.static_scopeAt]

/-- Two capabilities are handled in a function, and the handled body passes a block on in which a
function calls itself and a function value has a cell. -/
def nestedExtents : Module where
  info := ⟨18, {}⟩
  name := "unit"
  imports := [⟨14, [], .con "Int" "", ∅⟩]
  defs := [.function ⟨17, {}⟩ 1 [] [2] (.con "Int" "") (.handle ⟨16, {}⟩
    (.call ⟨13, {}⟩ (.ref ⟨1, {}⟩ 2) [] [.blockArg ⟨12, {}⟩ [] [3] (.block ⟨11, {}⟩ [
      .cell ⟨3, {}⟩ 4 (.literal ⟨2, {}⟩ "0"),
      .function ⟨7, {}⟩ 5 [] [6] (.con "Int" "")
        (.call ⟨6, {}⟩ (.ref ⟨4, {}⟩ 5) [.ref ⟨5, {}⟩ 6] [] (.con "Int" "")),
      .lambda ⟨10, {}⟩ 7 [] [] (.con "Int" "") none (.cell ⟨9, {}⟩ 8 (.literal ⟨8, {}⟩ "0"))])]
        (.con "Int" ""))
    [⟨{}, 9, "Read", [⟨15, [], 10, .ref ⟨14, {}⟩ 10⟩]⟩,
      ⟨{}, 11, "Write", [⟨16, [], 12, .ref ⟨15, {}⟩ 11⟩]⟩]
    (.con "Int" ""))]

/-- The handlers replace the extent of the function around them, the block widens the static region
and not the extent, and the function value replaces both. -/
theorem symbols_declared_nestedExtents :
    ∃ report, check {} {} ⟨[]⟩ nestedExtents = (.ok report, ⟨[]⟩) ∧ nestedExtents.tree.ids.Nodup ∧
      nestedExtents.BoundOnce ∧
      (report.annotations.symbol? 4, report.annotations.symbol? 8, report.annotations.symbol? 12,
        report.annotations.node? 4) =
      (some (.ofList [9, 11]), some (.singleton 7), some (.ofList [9, 11]),
        some (.ofList [3, 9, 11])) ∧
      nestedExtents.SymbolsDeclared report.annotations := by
  obtain ⟨report, hcheck, hfound⟩ := exists_report (F := ⟨[]⟩)
    (f := fun r => (r.annotations.symbol? 4, r.annotations.symbol? 8, r.annotations.symbol? 12,
      r.annotations.node? 4))
    (show (check {} {} ⟨[]⟩ nestedExtents).1.toOption.map _ =
      some (some (.ofList [9, 11]), some (.singleton 7), some (.ofList [9, 11]),
      some (.ofList [3, 9, 11])) by
        decide +kernel) (by decide +kernel)
  have hids : nestedExtents.tree.ids.Nodup := by decide
  have honce : nestedExtents.BoundOnce := by
    unfold BoundOnce
    decide
  exact ⟨report, hcheck, hids, honce, hfound, symbols_declared hcheck hids honce⟩

end Module

end RegionCapture
