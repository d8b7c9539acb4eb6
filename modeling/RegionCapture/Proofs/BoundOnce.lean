import RegionCapture.Proofs.Visit

/-!
# Symbols that are bound once

If no symbol is bound twice in a unit (`Module.BoundOnce`), what a node annotates and what the trees
below it annotate are different symbols, and so are the symbols of any two of these trees
(`Tree.nodup_split`). Hence a symbol keeps what it is given when its binder is entered for as long
as the trees below the binder are checked (`Check.Visit.symbol?_found`,
`Check.Visit.Child.symbol?_within`). When the binder is left, only a definition or an immutable
binding annotates its symbol again (`Check.symbol?_leave`).
-/

namespace RegionCapture

/-- The symbols bound in a tree below a node, and the resumption of a clause of which it is the
body. -/
def Task.binders (c : Task) : List SymbolId := c.resume.toList ++ c.tree.allBinders

/-- No symbol is bound twice, neither in the tree of the unit nor by its imports. -/
def Module.BoundOnce (m : Module) : Prop :=
  (m.imports.map Imported.symbol ++ m.tree.allBinders).Nodup

theorem Module.BoundOnce.tree {m : Module} (h : m.BoundOnce) : m.tree.allBinders.Nodup :=
  (List.nodup_append.1 h).2.1

namespace Tree

variable {t : Tree} {ts us : List Task} {c : Task} {x : SymbolId}

theorem perm_flatMap_binders (ts : List Task) :
    (ts.filterMap Task.resume ++ ts.flatMap fun c => c.tree.allBinders).Perm
      (ts.flatMap Task.binders) := by
  induction ts with
  | nil => exact .nil
  | cons c ts ih =>
    rw [List.perm_iff_count] at ih ⊢
    intro x
    have hrest := ih x
    cases hresume : c.resume <;>
      simp only [List.filterMap_cons, hresume, List.flatMap_cons, Task.binders, Option.toList,
        List.count_append, List.nil_append, List.cons_append, List.count_cons] at hrest ⊢ <;> omega

/-- The symbols bound in a tree are those that its root introduces and those bound below it. -/
theorem allBinders_perm (h : t.isHole = false) :
    t.allBinders.Perm (t.introduced ++ t.tasks.flatMap Task.binders) := by
  rw [allBinders_eq h, binders, List.append_assoc]
  exact (perm_flatMap_binders t.tasks).append_left _

theorem mem_footprints : (footprints ts).symbols x ↔ x ∈ ts.flatMap Task.binders := by
  simp [footprints, Task.binders]

/-- The root of a tree, and each of the trees below it, bind symbols of their own. -/
theorem nodup_split (h : t.isHole = false) (hnodup : t.allBinders.Nodup)
    (split : t.tasks = ts ++ c :: us) :
    (t.introduced ++ (ts.flatMap Task.binders ++
      (c.resume.toList ++ (c.tree.allBinders ++ us.flatMap Task.binders)))).Nodup := by
  have hperm := (allBinders_perm h).nodup_iff.1 hnodup
  rwa [split, List.flatMap_append, List.flatMap_cons, Task.binders, List.append_assoc] at hperm

/-- A tree below a node and the trees after it bind symbols of their own. -/
theorem nodup_later (h : t.isHole = false) (hnodup : t.allBinders.Nodup)
    (split : t.tasks = ts ++ c :: us) :
    (c.tree.allBinders ++ us.flatMap Task.binders).Nodup := by
  have hbelow := (List.nodup_append.1 (nodup_split h hnodup split)).2.1
  exact (List.nodup_append.1 (List.nodup_append.1 hbelow).2.1).2.1

theorem binders_subset_allBinders (h : t.isHole = false) (hc : c ∈ t.tasks) :
    c.binders ⊆ t.allBinders := fun _ hx =>
  (allBinders_perm h).mem_iff.2 (List.mem_append_right _ (List.mem_flatMap.2 ⟨c, hc, hx⟩))

/-- What the root of a tree introduces is not annotated below it. -/
theorem not_footprints_of_introduced (h : t.isHole = false) (hnodup : t.allBinders.Nodup)
    (hx : x ∈ t.introduced) :
    ¬ (footprints t.tasks).symbols x := by
  intro hbelow
  have hdisjoint := (List.nodup_append.1 ((allBinders_perm h).nodup_iff.1 hnodup)).2.2
  exact hdisjoint x hx x (mem_footprints.1 hbelow) rfl

theorem footprint_sub_footprints (hc : c ∈ ts) : c.tree.footprint.Sub (footprints ts) :=
  ⟨fun _ hid => ⟨c, hc, hid⟩, fun _ hx => ⟨c, hc, .inr hx⟩⟩

/-- Binders are annotated with their own regions, and no other symbol is annotated. -/
theorem symbol?_ownRegions (xs : List SymbolId) (a : Annotations) (x : SymbolId) :
    (ownRegions xs a).symbol? x = if x ∈ xs then some (.singleton (.ofSymbol x))
      else a.symbol? x := by
  induction xs generalizing a with
  | nil => rfl
  | cons y ys ih =>
    show (ownRegions ys (a.annotateSymbol y (.singleton (.ofSymbol y)))).symbol? x = _
    rw [ih, Annotations.symbol?_annotateSymbol]
    by_cases hy : y = x
    · subst hy
      simp
    · simp [hy, Ne.symm hy]

/-- The symbol that a definition defines. -/
def definition? : Tree → Option SymbolId
  | function _ symbol _ _ _ _ => some symbol
  | lambda _ symbol _ _ _ _ _ => some symbol
  | _ => none

/-- The symbol that is annotated when a node is left. -/
def completes? : Tree → Option SymbolId
  | binding _ symbol _ _ => some symbol
  | t => t.definition?

theorem node?_markScope (t : Tree) (a : Annotations) (id : NodeId) :
    (t.markScope a).node? id = a.node? id := by
  unfold markScope
  cases t.bound <;> rfl

theorem symbol?_markScope (t : Tree) (a : Annotations) (x : SymbolId) :
    (t.markScope a).symbol? x = a.symbol? x := by
  unfold markScope
  cases t.bound <;> rfl

end Tree

namespace Check

/-! ## What leaving a node annotates -/

section
variable {env : CheckEnv} {scope : Scope} {t : Tree} {s s' : CheckState} {reg : RegionSet}
  {regs : List RegionSet} {u : Unit} {x : SymbolId}

theorem symbol?_settle (h : Yields (settle env regs reg t) s u s') (hx : t.completes? ≠ some x) :
    s'.annotations.symbol? x = s.annotations.symbol? x := by
  have hother : ∀ {symbol : SymbolId} {own : RegionSet} {s₁ : CheckState},
      Equates s s₁ → symbol ≠ x →
      (s₁.annotations.annotateSymbol symbol own).symbol? x = s.annotations.symbol? x := by
    intro symbol own s₁ hequates hne
    rw [Annotations.symbol?_annotateSymbol, if_neg hne, hequates.annotations_eq]
  cases t with
  | function info symbol params blocks result body =>
    obtain ⟨s₁, hsolve, -, rfl⟩ := yields_settle_function.1 h
    exact hother (equates_solveAt hsolve) fun he => hx (congrArg some he)
  | lambda info symbol params blocks result slot body =>
    obtain ⟨s₁, s₂, hmatch, hsolve, -, rfl⟩ := yields_settle_lambda.1 h
    exact hother ((equates_matchSlot hmatch).trans (equates_solveAt hsolve)) fun he =>
      hx (congrArg some he)
  | binding info symbol type init =>
    obtain ⟨s₁, own, hsolve, -, rfl⟩ := yields_settle_binding.1 h
    exact hother (equates_solveAt hsolve) fun he => hx (congrArg some he)
  | handle info body handlers type =>
    rw [(equates_solveAt (yields_settle_handle.1 h).1).annotations_eq]
  | call info callee args blockArgs type => rw [(equates_settle_call h).annotations_eq]
  | _ => rw [(yields_pure.1 h).2]

/-- Leaving a node leaves all symbols alone but the one it completes. -/
theorem symbol?_leave (h : Yields (leave env scope regs t) s reg s') (hx : t.completes? ≠ some x) :
    s'.annotations.symbol? x = s.annotations.symbol? x := by
  obtain ⟨-, -, s₁, hsettle, rfl⟩ := yields_leave.1 h
  exact (symbol?_settle hsettle hx).trans (t.symbol?_markScope s.annotations x)

/-- A definition is left with its symbol annotated as the definition itself. -/
theorem symbol?_leave_definition (h : Yields (leave env scope regs t) s reg s')
    (hx : t.definition? = some x) :
    s'.annotations.symbol? x = some reg := by
  obtain ⟨-, -, s₁, hsettle, rfl⟩ := yields_leave.1 h
  have hown : ∀ a : Annotations, (a.annotateSymbol x reg).symbol? x = some reg := fun a => by simp
  cases t with
  | function info symbol params blocks result body =>
    cases hx
    obtain ⟨s₂, -, -, rfl⟩ := yields_settle_function.1 hsettle
    exact hown s₂.annotations
  | lambda info symbol params blocks result slot body =>
    cases hx
    obtain ⟨s₂, s₃, -, -, -, rfl⟩ := yields_settle_lambda.1 hsettle
    exact hown s₃.annotations
  | _ => cases hx

end

end Check

namespace Check.Visit

variable {env : CheckEnv} {v w u : Visit env} {x : SymbolId} {i : Nat}

/-! ## From entering a node to its end -/

/-- What a node introduces is, once the trees below it are checked, as it was when the node was
entered. -/
theorem symbol?_found (v : Visit env) (hnodup : v.tree.allBinders.Nodup)
    (hx : x ∈ v.tree.introduced) :
    v.found.annotations.symbol? x = (v.tree.entry v.scope v.before.annotations).symbol? x :=
  (steps_tasks v.below).sameOutside.symbols x
    (Tree.not_footprints_of_introduced v.present hnodup hx)

theorem Child.steps_before (h : v.Child i w) :
    Steps (Tree.footprints v.tree.tasks) (entered v.scope v.tree v.before) w.before := by
  obtain ⟨ts, us, resume, regs, regs', s, -, hsplit, -, hearlier, hstarts, -, -⟩ := h
  rw [hstarts, hsplit]
  have hsub : (Tree.footprints ts).Sub (Tree.footprints (ts ++ ⟨resume, w.tree⟩ :: us)) :=
    ⟨fun id ⟨c, hc, hid⟩ => ⟨c, List.mem_append_left _ hc, hid⟩,
      fun x ⟨c, hc, hx⟩ => ⟨c, List.mem_append_left _ hc, hx⟩⟩
  exact ((steps_tasks hearlier).mono hsub).trans
    (steps_resumed fun x hx => ⟨_, List.mem_append_right ts List.mem_cons_self, .inl hx⟩)

theorem Child.scope_eq (h : v.Child i w) : w.scope = v.tree.inner v.scope := by
  obtain ⟨-, -, -, -, -, -, -, -, hscope, -⟩ := h
  exact hscope

theorem Child.mem_tasks (h : v.Child i w) : ∃ resume, ⟨resume, w.tree⟩ ∈ v.tree.tasks := by
  obtain ⟨ts, us, resume, -, -, -, -, hsplit, -⟩ := h
  exact ⟨resume, by simp [hsplit]⟩

/-- Up to a visit within a visit only what is bound in the visited tree is annotated. -/
theorem Within.steps_before (h : v.Within w) : Steps v.tree.footprint v.before w.before := by
  induction h using Relation.ReflTransGen.head_induction_on with
  | refl => exact .refl _ _
  | @head v u hchild _ ih =>
    obtain ⟨i, hchild⟩ := hchild
    obtain ⟨resume, hmem⟩ := hchild.mem_tasks
    have henter : Steps v.tree.own v.before (entered v.scope v.tree v.before) :=
      (Move.annotate _ ((v.tree.entry_sameOutside v.scope _).mono v.tree.settling_sub_own)).steps
    have hbelow := hchild.steps_before.trans (ih.mono (Tree.footprint_sub_footprints hmem))
    exact (henter.mono (Tree.own_sub_footprint v.present)).trans
      (hbelow.mono (Tree.footprints_sub_footprint v.present))

/-- What a node introduces is, at every visit below it, as it was when the node was entered. -/
theorem Child.symbol?_within (h : v.Child i u) (hw : u.Within w) (hnodup : v.tree.allBinders.Nodup)
    (hx : x ∈ v.tree.introduced) :
    w.before.annotations.symbol? x = (v.tree.entry v.scope v.before.annotations).symbol? x := by
  obtain ⟨resume, hmem⟩ := h.mem_tasks
  have hsteps := h.steps_before.trans (hw.steps_before.mono (Tree.footprint_sub_footprints hmem))
  exact hsteps.sameOutside.symbols x (Tree.not_footprints_of_introduced v.present hnodup hx)

end Check.Visit

/-- What is bound in a visited tree is bound once. -/
theorem Module.Visits.nodup_binders {symbols : SymbolTable} {options : Options} {table : Table}
    {m : Module} {v : Check.Visit (m.env symbols options)} (hv : m.Visits symbols options table v)
    (h : m.BoundOnce) :
    v.tree.allBinders.Nodup := by
  obtain ⟨root, -, htree, -, hwithin⟩ := hv
  exact h.tree.sublist (htree ▸ hwithin.sublist.2)

end RegionCapture
