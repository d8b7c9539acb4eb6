import RegionCapture.Proofs.Report
import RegionCapture.Proofs.Stopping

/-!
# Verifying scopes raises no false alarm

A check can verify on the way that a node captures only regions bound around it. In a well-scoped
unit (`Module.WellScoped`) a symbol is used only where everything is bound that is bound where the
symbol is, and the type of an immutable binding mentions only what is bound around it. The invariant
of the run is that every symbol captures only regions bound at a place where the symbol is bound
(`Tree.Grounded`). Main statement `Module.verifyScopes_silent`: the check of a well-scoped unit
never reports a broken invariant, and if it accepts the unit, nothing is captured at the top level.
-/

namespace RegionCapture

namespace Tree

/-! ## Places -/

/-- The node stands in the tree, below the nodes around it, of which the innermost comes first. -/
inductive Stands (root : Tree) : List Tree → Tree → Prop
  | root : Stands root [] root
  | child {around : List Tree} {n c : Tree} (stands : Stands root around n) (mem : c ∈ n.children) :
    Stands root (n :: around) c

/-- The regions bound by the nodes around a place. -/
def lexical (around : List Tree) : RegionSet := Check.unionAll (around.map fun n => n.bound.getD ∅)

/-- The symbol that a node declares at its own place. -/
def declared? : Tree → Option SymbolId
  | function _ symbol _ _ _ _ => some symbol
  | lambda _ symbol _ _ _ _ _ => some symbol
  | cell _ symbol _ => some symbol
  | binding _ symbol _ _ => some symbol
  | _ => none

/-- The symbols that a node binds for the trees below it: blocks, capabilities and resumptions. -/
def bindsBelow : Tree → List SymbolId
  | function _ _ _ blocks _ _ => blocks
  | lambda _ _ _ blocks _ _ _ => blocks
  | blockArg _ _ blocks _ => blocks
  | handle _ _ handlers _ => handlers.flatMap fun h => h.capability :: h.clauses.map Clause.resume
  | _ => []

/-- The symbol is bound at a place, given by the nodes around it. -/
inductive BoundAt (root : Tree) (symbol : SymbolId) : List Tree → Prop
  | declared {around : List Tree} {n : Tree} (stands : root.Stands around n)
    (declares : n.declared? = some symbol) :
    BoundAt root symbol around
  | inside {around : List Tree} {n : Tree} (stands : root.Stands around n)
    (binds : symbol ∈ n.bindsBelow) :
    BoundAt root symbol (n :: around)

/-- Every symbol captures only regions that are bound at a place where the symbol is bound. -/
def Grounded (root : Tree) (a : Annotations) : Prop :=
  ∀ symbol, ∀ r ∈ a.symbolRegion symbol, ∃ place, root.BoundAt symbol place ∧ r ∈ lexical place

end Tree

/-- The scope is that of a place: it has all regions bound around the place, and all it has is bound
there. -/
structure Scope.Fits (scope : Scope) (around : List Tree) : Prop where
  lexical_eq : scope.lexical = Tree.lexical around
  static : ∀ r ∈ scope.static, r ∈ Tree.lexical around
  dynamic : ∀ r ∈ scope.dynamic, r ∈ Tree.lexical around

/-- What the unit captures is bound where it is captured: imports capture nothing, a symbol is used
only where everything is bound that is bound at any place where the symbol is, and the type of an
immutable binding mentions, over the table, only what is bound around the binding. -/
structure Module.WellScoped (m : Module) (F : Table) : Prop where
  imports : ∀ i ∈ m.imports, i.region = ∅
  uses : ∀ around n symbol, m.tree.Stands around n → n.used? = some symbol →
    ∀ place, m.tree.BoundAt symbol place → ∀ r ∈ Tree.lexical place, r ∈ Tree.lexical around
  types : ∀ around info symbol type init, m.tree.Stands around (.binding info symbol type init) →
    ∀ free, type.freeRegions F = .ok free → ∀ r ∈ free, r ∈ Tree.lexical around

namespace Tree

@[simp] theorem mem_lexical_cons {n : Tree} {around : List Tree} {r : Region} :
    r ∈ lexical (n :: around) ↔ r ∈ n.bound.getD ∅ ∨ r ∈ lexical around := by
  simp [lexical, Check.unionAll_cons]

/-- Places among which are the root and, with a node, its children are all there are. -/
theorem Stands.mem_of_closed {root n : Tree} {around : List Tree} {places : List (List Tree × Tree)}
    (h : root.Stands around n) (hroot : ([], root) ∈ places)
    (hclosed : ∀ p ∈ places, ∀ c ∈ p.2.children, (p.2 :: p.1, c) ∈ places) :
    (around, n) ∈ places := by
  induction h with
  | root => exact hroot
  | child _ hc ih => exact hclosed _ ih _ hc

theorem mem_children {t : Tree} {c : Task} (hc : c ∈ t.tasks) (h : c.tree.isHole = false) :
    c.tree ∈ t.children := by
  rw [children_eq_present]
  exact List.mem_filter.2 ⟨List.mem_map.2 ⟨c, hc, rfl⟩, by simp [h]⟩

theorem mem_bindsBelow_of_resume {t : Tree} {c : Task} {x : SymbolId} (hc : c ∈ t.tasks)
    (h : c.resume = some x) :
    x ∈ t.bindsBelow := by
  cases t with
  | handle info body handlers type =>
    rcases List.mem_cons.1 hc with rfl | hc
    · cases h
    · obtain ⟨handler, hhandler, hc⟩ := List.mem_flatMap.1 hc
      obtain ⟨clause, hclause, rfl⟩ := List.mem_map.1 hc
      cases h
      exact List.mem_flatMap.2 ⟨handler, hhandler,
        List.mem_cons_of_mem _ (List.mem_map.2 ⟨clause, hclause, rfl⟩)⟩
  | _ => grind [tasks, task]

/-! ## Symbols capture what is bound around them -/

variable {root t : Tree} {around place : List Tree} {a : Annotations} {reg : RegionSet}
  {scope : Scope} {r : Region}

theorem Grounded.annotateSymbol {symbol : SymbolId} (h : root.Grounded a)
    (hreg : ∀ r ∈ reg, ∃ place, root.BoundAt symbol place ∧ r ∈ lexical place) :
    root.Grounded (a.annotateSymbol symbol reg) := by
  intro x r hr
  simp only [Annotations.symbolRegion, Annotations.symbol?_annotateSymbol] at hr
  split at hr
  · next heq => exact heq ▸ hreg r hr
  · exact h x r hr

theorem Grounded.ownRegions {xs : List SymbolId} (h : root.Grounded a)
    (hxs : ∀ x ∈ xs, root.BoundAt x place ∧ .ofSymbol x ∈ lexical place) :
    root.Grounded (ownRegions xs a) := by
  induction xs generalizing a with
  | nil => exact h
  | cons x xs ih =>
    obtain ⟨hbound, hown⟩ := hxs x List.mem_cons_self
    refine ih (h.annotateSymbol fun r hr => ⟨place, hbound, ?_⟩) fun y hy =>
      hxs y (List.mem_cons_of_mem x hy)
    rwa [RegionSet.mem_singleton.1 hr]

/-! ## Scopes of places -/

theorem mem_lexical_inner :
    r ∈ (t.inner scope).lexical ↔ r ∈ t.bound.getD ∅ ∨ r ∈ scope.lexical := by
  cases t with
  | function =>
    simp [inner, bound, Scope.enterDefinition, or_assoc, or_comm (a := r ∈ scope.lexical)]
  | lambda => simp [inner, bound, Scope.enterDefinition, or_assoc, or_comm (a := r ∈ scope.lexical)]
  | blockArg => simp [inner, bound, Scope.enterBlock, or_comm]
  | handle => simp [inner, bound, Scope.enterHandler, or_comm]
  | _ => simp [inner, bound]

theorem mem_static_inner (h : r ∈ (t.inner scope).static) :
    r ∈ t.bound.getD ∅ ∨ r ∈ scope.static := by
  cases t with
  | function => simp_all [inner, bound, Scope.enterDefinition]
  | lambda => simp_all [inner, bound, Scope.enterDefinition]
  | blockArg => exact (RegionSet.mem_union.1 h).symm
  | handle => exact .inl h
  | _ => exact .inr h

theorem mem_dynamic_inner (h : r ∈ (t.inner scope).dynamic) :
    r ∈ t.bound.getD ∅ ∨ r ∈ scope.dynamic := by
  cases t with
  | function => simp_all [inner, bound, Scope.enterDefinition]
  | lambda => simp_all [inner, bound, Scope.enterDefinition]
  | handle => exact .inl h
  | _ => exact .inr h

/-- The trees below a node are checked in the scope of their place. -/
theorem fits_inner (h : scope.Fits around) (t : Tree) : (t.inner scope).Fits (t :: around) where
  lexical_eq := RegionSet.ext_mem fun r => by rw [mem_lexical_inner, mem_lexical_cons, h.lexical_eq]
  static r hr := mem_lexical_cons.2 ((mem_static_inner hr).imp_right (h.static r))
  dynamic r hr := mem_lexical_cons.2 ((mem_dynamic_inner hr).imp_right (h.dynamic r))

/-- Entering a node keeps the symbols grounded. -/
theorem Grounded.entry (h : root.Grounded a) (hstands : root.Stands around t)
    (hfits : scope.Fits around) :
    root.Grounded (t.entry scope a) := by
  have hbelow : ∀ xs : List SymbolId, (∀ x ∈ xs, x ∈ t.bindsBelow ∧ .ofSymbol x ∈ t.bound.getD ∅) →
      ∀ a, root.Grounded a → root.Grounded (Tree.ownRegions xs a) := fun xs hxs a ha =>
    ha.ownRegions fun x hx => ⟨.inside hstands (hxs x hx).1, mem_lexical_cons.2 (.inl (hxs x hx).2)⟩
  have hdeclared : ∀ {symbol : SymbolId} {reg : RegionSet}, t.declared? = some symbol →
      (∀ r ∈ reg, r ∈ lexical around) → root.Grounded (a.annotateSymbol symbol reg) :=
    fun hsymbol hreg =>
    h.annotateSymbol fun r hr => ⟨around, .declared hstands hsymbol, hreg r hr⟩
  cases t with
  | function info symbol params blocks result body =>
    refine hbelow blocks (fun x hx => ⟨hx, ?_⟩) _ (hdeclared rfl hfits.static)
    simpa [bound, regionsOf] using .inr ⟨x, hx, rfl⟩
  | lambda info symbol params blocks result slot body =>
    refine hbelow blocks (fun x hx => ⟨hx, ?_⟩) _ (hdeclared rfl hfits.static)
    simpa [bound, regionsOf] using .inr ⟨x, hx, rfl⟩
  | blockArg info params blocks body =>
    exact hbelow blocks (fun x hx => ⟨hx, Check.mem_regionsOf.2 ⟨x, hx, rfl⟩⟩) a h
  | handle info body handlers type =>
    refine hbelow _ (fun x hx => ⟨?_, Check.mem_regionsOf.2 ⟨x, hx, rfl⟩⟩) a h
    obtain ⟨handler, hhandler, rfl⟩ := List.mem_map.1 hx
    exact List.mem_flatMap.2 ⟨handler, hhandler, List.mem_cons_self⟩
  | cell info symbol init => exact hdeclared rfl hfits.dynamic
  | _ => exact h

end Tree

theorem Module.grounded_startAnnotations {m : Module} (h : ∀ i ∈ m.imports, i.region = ∅) :
    m.tree.Grounded m.startAnnotations := by
  refine m.startAnnotations_induction (P := m.tree.Grounded) ?_ (fun a i hi ha => ?_)
    fun a symbol ha => ?_
  · intro symbol r hr
    exact absurd hr (RegionSet.not_mem_empty r)
  · refine ha.annotateSymbol fun r hr => ?_
    rw [h i hi] at hr
    exact absurd hr (RegionSet.not_mem_empty r)
  · exact ha.annotateSymbol fun r hr => absurd hr (RegionSet.not_mem_empty r)

namespace Check

/-! ## Steps that raise no alarm -/

/-- If the step ends within the table, it reports no broken invariant, and a value it gives is as
said. -/
def Silent {α : Type} (F : Table) (x : Check α) (s : CheckState)
    (post : α → CheckState → Prop) : Prop :=
  (x.outcome s).2.store.table.Extends F →
    (∀ a s', Yields x s a s' → post a s') ∧ ∀ d s', Rejects x s d s' → d.code ≠ .internal

section
variable {α β : Type} {x : Check α} {f : α → Check β} {s : CheckState} {F : Table}
  {Q : α → CheckState → Prop} {R : β → CheckState → Prop}

theorem silent_pure {a : α} (h : Q a s) : Silent F (pure a : Check α) s Q := by
  refine fun _ => ⟨fun b s' hb => ?_, fun d s' hd => ?_⟩
  · obtain ⟨rfl, rfl⟩ := yields_pure.1 hb
    exact h
  · simp [Rejects, outcome_pure] at hd

theorem silent_annotate {g : Annotations → Annotations}
    (h : Silent F x { s with annotations := g s.annotations } Q) :
    Silent F (annotate g >>= fun _ => x) s Q := h

theorem silent_get {f : CheckState → Check α} (h : Silent F (f s) s Q) :
    Silent F (get >>= f) s Q := h

/-- A sequence raises no alarm if no part of it does. What follows a step loses no knowledge, so a
sequence that ends within the table was within it before. -/
theorem Silent.bind (hx : Silent F x s Q) (hgrows : ∀ a, Orderly (fun _ => True) (f a))
    (hf : ∀ a s₁, Q a s₁ → Silent F (f a) s₁ R) : Silent F (x >>= f) s R := by
  intro hF
  rcases hout : x.outcome s with ⟨e | a, s₁⟩
  · have hbind : (x >>= f).outcome s = (.error e, s₁) := by rw [outcome_bind, hout]
    rw [hbind] at hF
    refine ⟨fun c s' h => ?_, fun d s' h => ?_⟩
    · rw [Yields, hbind] at h
      cases h
    · rw [Rejects, hbind] at h
      cases h
      exact (hx (by rwa [hout])).2 d s₁ hout
  · have hbind : (x >>= f).outcome s = (f a).outcome s₁ := by rw [outcome_bind, hout]
    rw [hbind] at hF
    have hwithin := ((hgrows a).extends_table s₁).trans hF
    have hrest := hf a s₁ ((hx (by rwa [hout])).1 a s₁ hout) hF
    refine ⟨fun c s' h => hrest.1 c s' ?_, fun d s' h => hrest.2 d s' ?_⟩
    · rwa [Yields, hbind] at h
    · rwa [Rejects, hbind] at h

end

/-! ## Checking a well-scoped tree -/

/-- Symbols are grounded, and the regions are bound around the place. -/
structure Contained (root : Tree) (around : List Tree) (reg : RegionSet)
    (s : CheckState) : Prop where
  grounded : root.Grounded s.annotations
  bound : ∀ r ∈ reg, r ∈ Tree.lexical around

variable {env : CheckEnv} {scope : Scope} {m : Module} {F : Table} {t : Tree} {around : List Tree}
  {s s' : CheckState} {regs : List RegionSet} {reg : RegionSet} {u : Unit}

theorem mem_lexical_of_mem_region (h : m.WellScoped F) (hstands : m.tree.Stands around t)
    (hcont : Contained m.tree (t :: around) (unionAll regs) s) :
    ∀ r ∈ t.region regs s.annotations, r ∈ Tree.lexical around := by
  intro r hr
  have hsymbol : ∀ symbol,
      t.used? = some symbol → r ∈ s.annotations.symbolRegion symbol → r ∈ Tree.lexical around := by
    intro symbol hused hr
    obtain ⟨place, hbound, hr⟩ := hcont.grounded symbol r hr
    exact h.uses around t symbol hstands hused place hbound r hr
  cases t with
  | ref info symbol => exact hsymbol symbol rfl hr
  | assign info symbol value =>
    rcases RegionSet.mem_union.1 hr with hr | hr
    · exact hsymbol symbol rfl hr
    · simpa [Tree.bound] using hcont.bound r hr
  | _ =>
    obtain ⟨hr, hfree⟩ := RegionSet.mem_sdiff.1 hr
    exact (Tree.mem_lexical_cons.1 (hcont.bound r hr)).resolve_left hfree

/-- Settling a node gives its symbol the regions of the node, or those of its type. -/
theorem grounded_settle (h : m.WellScoped F) (hstands : m.tree.Stands around t)
    (hcont : Contained m.tree around reg s) (hsettle : Yields (settle env regs reg t) s u s')
    (hF : s'.store.table.Extends F) : m.tree.Grounded s'.annotations := by
  have hdeclared : ∀ {symbol : SymbolId} {own : RegionSet} {a : Annotations},
      t.declared? = some symbol →
      a = s.annotations → (∀ r ∈ own, r ∈ Tree.lexical around) →
      m.tree.Grounded (a.annotateSymbol symbol own) := by
    rintro symbol own a hsymbol rfl hown
    exact hcont.grounded.annotateSymbol fun r hr => ⟨around, .declared hstands hsymbol, hown r hr⟩
  cases t with
  | function info symbol params blocks result body =>
    obtain ⟨s₁, hsolve, -, rfl⟩ := yields_settle_function.1 hsettle
    exact hdeclared rfl (equates_solveAt hsolve).annotations_eq hcont.bound
  | lambda info symbol params blocks result slot body =>
    obtain ⟨s₁, s₂, hmatch, hsolve, -, rfl⟩ := yields_settle_lambda.1 hsettle
    exact hdeclared rfl ((equates_matchSlot hmatch).trans (equates_solveAt hsolve)).annotations_eq
      hcont.bound
  | handle info body handlers type =>
    rw [(equates_solveAt (yields_settle_handle.1 hsettle).1).annotations_eq]
    exact hcont.grounded
  | binding info symbol type init =>
    obtain ⟨s₁, own, hsolve, hown, rfl⟩ := yields_settle_binding.1 hsettle
    refine hdeclared rfl (equates_solveAt hsolve).annotations_eq fun r hr => ?_
    -- the type is read in the middle of the run, when less is known of it than in the end
    obtain ⟨free, hfree⟩ := Ty.exists_freeRegions hF hown
    exact h.types around info symbol type init hstands free hfree r
      (Ty.freeRegions_mono hF hown hfree r hr)
  | call info callee args blockArgs type =>
    rw [(equates_settle_call hsettle).annotations_eq]
    exact hcont.grounded
  | _ =>
    rw [← (yields_pure.1 hsettle).2]
    exact hcont.grounded

theorem silent_settle (h : m.WellScoped F) (hstands : m.tree.Stands around t)
    (hcont : Contained m.tree around reg s) :
    Silent F (settle env regs reg t) s fun _ s' => Contained m.tree around reg s' := by
  intro hF
  refine ⟨fun u s' hsettle => ⟨grounded_settle h hstands hcont hsettle ?_, hcont.bound⟩,
    fun d s' hd => ?_⟩
  · rwa [show outcome _ s = _ from hsettle] at hF
  · exact (orderly_settle (fun _ _ hc => hc) regs reg t).code s d s' hd

theorem silent_record {info : Anchor} (hfits : scope.Fits around)
    (hcont : Contained m.tree around reg s) :
    Silent F (record env scope info reg) s (Contained m.tree around) := by
  intro hF
  refine ⟨fun reg' s' hrecord => ?_, fun d s' hd => absurd hd (not_rejects_record ?_)⟩
  · obtain ⟨-, rfl, rfl⟩ := yields_record.1 hrecord
    exact ⟨hcont.grounded, hcont.bound⟩
  · rw [hfits.lexical_eq]
    exact hcont.bound

theorem silent_leave (h : m.WellScoped F) (hstands : m.tree.Stands around t)
    (hfits : scope.Fits around) (hcont : Contained m.tree (t :: around) (unionAll regs) s) :
    Silent F (leave env scope regs t) s (Contained m.tree around) := by
  have hmarked : Contained m.tree (t :: around) (unionAll regs)
      { s with annotations := t.markScope s.annotations } := by
    refine ⟨?_, hcont.bound⟩
    show m.tree.Grounded (t.markScope s.annotations)
    unfold Tree.markScope
    cases t.bound <;> exact hcont.grounded
  have hreg := mem_lexical_of_mem_region h hstands hmarked
  have hsettle : Silent F (settle env regs (t.region regs (t.markScope s.annotations)) t) _ _ :=
    silent_settle h hstands ⟨hmarked.grounded, hreg⟩
  exact silent_annotate (silent_get (hsettle.bind (fun _ => orderly_record fun _ _ => trivial)
    fun _ s₁ hcont => silent_record hfits hcont))

theorem grounded_resumed {c : Task} (hstands : m.tree.Stands around t) (hc : c ∈ t.tasks)
    (hfits : scope.Fits (t :: around)) (hground : m.tree.Grounded s.annotations) :
    m.tree.Grounded (resumed scope c.resume s).annotations := by
  cases hresume : c.resume with
  | none => exact hground
  | some x =>
    refine hground.annotateSymbol fun r hr => ⟨t :: around, .inside hstands ?_, hfits.dynamic r hr⟩
    exact Tree.mem_bindsBelow_of_resume hc hresume

theorem silent_tasks {ts : List Task} (hstands : m.tree.Stands around t)
    (hfits : scope.Fits (t :: around)) (hts : ∀ c ∈ ts, c ∈ t.tasks)
    (ih :
      ∀ c ∈ ts, ∀ {around scope s}, c.tree.isHole = false → m.tree.Stands around c.tree →
        scope.Fits around →
      m.tree.Grounded s.annotations → Silent F (node env scope c.tree) s (Contained m.tree around))
    (hground : m.tree.Grounded s.annotations) :
    Silent F (tasks env scope ts) s fun regs => Contained m.tree (t :: around) (unionAll regs) := by
  induction ts generalizing s with
  | nil => exact silent_pure ⟨hground, fun r hr => absurd hr (RegionSet.not_mem_empty r)⟩
  | cons c ts ihts =>
    have hnode : Silent F (node env scope c.tree) (resumed scope c.resume s)
        (Contained m.tree (t :: around)) := by
      have hresumed := grounded_resumed hstands (hts c List.mem_cons_self) hfits hground
      cases hhole : c.tree.isHole with
      | true =>
        rw [Tree.eq_hole hhole, show node env scope .hole = pure ∅ by rw [node]]
        exact silent_pure ⟨hresumed, fun r hr => absurd hr (RegionSet.not_mem_empty r)⟩
      | false =>
        have hchild := hstands.child (Tree.mem_children (hts c List.mem_cons_self) hhole)
        exact ih c List.mem_cons_self hhole hchild hfits hresumed
    have hgrows : ∀ reg : RegionSet,
        Orderly (fun _ => True) (do return reg :: (← tasks env scope ts)) := fun _ =>
      (orderly_tasks (fun _ _ => trivial) ts).bind fun _ => orderly_pure _
    refine silent_annotate (hnode.bind hgrows fun reg s₁ hreg => ?_)
    have hrest := ihts (fun d hd => hts d (List.mem_cons_of_mem c hd))
      (fun d hd => ih d (List.mem_cons_of_mem c hd))
      hreg.grounded
    refine hrest.bind (fun _ => orderly_pure _) fun regs s₂ hregs =>
      silent_pure ⟨hregs.grounded, fun r hr => ?_⟩
    rw [unionAll_cons, RegionSet.mem_union] at hr
    exact hr.elim (hreg.bound r) (hregs.bound r)

/-- The check of a tree in a well-scoped unit raises no alarm, and what the tree captures is bound
around it. -/
theorem silent_node (h : m.WellScoped F) (hpresent : t.isHole = false)
    (hstands : m.tree.Stands around t) (hfits : scope.Fits around)
    (hground : m.tree.Grounded s.annotations) :
    Silent F (node env scope t) s (Contained m.tree around) := by
  induction t using Tree.induction_on_tasks generalizing around scope s with
  | step t ih =>
    have hbelow : Silent F (tasks env (t.inner scope) t.tasks) (entered scope t s) _ :=
      silent_tasks hstands (Tree.fits_inner hfits t) (fun _ hc => hc) (fun c hc => ih c hc)
        (hground.entry hstands hfits)
    rw [node_eq env scope hpresent]
    exact silent_annotate (hbelow.bind (fun regs => orderly_leave (fun _ _ => trivial) regs t)
      fun regs s₁ hcont => silent_leave h hstands hfits hcont)

end Check

namespace Module

open Check

variable {symbols : SymbolTable} {options : Options} {table F : Table} {m : Module}
  {report : CheckReport}

/-- The check of the root of a well-scoped unit raises no alarm, and the unit captures nothing. -/
theorem WellScoped.silent (h : m.WellScoped F) :
    Silent F (node (m.env symbols options) {} m.tree) (m.start table) (Contained m.tree []) :=
  silent_node h m.isHole_tree .root ⟨rfl, nofun, nofun⟩ (grounded_startAnnotations h.imports)

/-- The root of an accepted unit is visited last, and captures nothing. -/
theorem WellScoped.exists_root (h : m.WellScoped F)
    (hcheck : check symbols options table m = (.ok report, F)) :
    ∃ root, m.Visits symbols options table root ∧ root.tree = m.tree ∧ root.region = ∅ ∧
      report.annotations = root.after.annotations := by
  obtain ⟨reg, s, final, hnode, hsolve, rfl, rfl⟩ := check_eq_ok.1 hcheck
  have hcont : Contained m.tree [] reg s := by
    refine (h.silent ?_).1 reg s hnode
    rw [show outcome _ _ = _ from hnode]
    exact (equates_solveAt hsolve).extends_table
  obtain ⟨root, hscope, htree, hbefore, rfl, rfl⟩ := Visit.exists_of_yields m.isHole_tree hnode
  refine ⟨root, ⟨root, hscope, htree, hbefore, .refl root⟩, htree, ?_,
    (equates_solveAt hsolve).annotations_eq⟩
  exact RegionSet.eq_empty_iff.2 fun r hr => absurd (hcont.bound r hr) (RegionSet.not_mem_empty r)

/-- What the unit does not capture no definition at its top level captures. -/
theorem exists_child_of_root {root : Visit (m.env symbols options)} (htree : root.tree = m.tree)
    (hempty : root.region = ∅) {i : Nat} {d : Tree} (hd : m.defs[i]? = some d)
    (hpresent : d.isHole = false) :
    ∃ v, root.Child i v ∧ v.tree = d ∧ v.region = ∅ := by
  have htask : root.tree.tasks[i]? = some d.task := by
    rw [htree]
    simp [Module.tree, Tree.tasks, hd]
  obtain ⟨v, hchild, hv, hregs⟩ := root.exists_child htask hpresent
  have hunion : root.region = unionAll root.regs \ ∅ := by
    obtain ⟨hregion, -⟩ := yields_leave.1 root.left
    rw [hregion, htree]
    rfl
  refine ⟨v, hchild, hv, RegionSet.eq_empty_iff.2 fun r hr => ?_⟩
  have hmem : r ∈ root.region := by
    rw [hunion, RegionSet.mem_sdiff]
    exact ⟨mem_unionAll.2 ⟨_, List.mem_of_getElem? hregs, hr⟩, RegionSet.not_mem_empty r⟩
  rw [hempty] at hmem
  exact RegionSet.not_mem_empty r hmem

/-- Scope verification raises no false alarm: with whatever options, a well-scoped unit is never
rejected for a broken invariant, and if it is accepted, the unit is annotated with nothing, and so
is every definition at its top level when it is left. Annotations are kept under the numbers of
nodes, so in the end a definition is found there if no other node has its number. -/
theorem verifyScopes_silent (h : m.WellScoped (check symbols options table m).2) :
    (∀ d F, check symbols options table m = (.error (.rejected d), F) → d.code ≠ .internal) ∧
    ∀ report F, check symbols options table m = (.ok report, F) →
      report.annotations.node? m.info.id = some ∅ ∧
      (∃ root, m.Visits symbols options table root ∧ root.tree = m.tree ∧
        ∀ i d, m.defs[i]? = some d → d.isHole = false →
          ∃ v, root.Child i v ∧ v.tree = d ∧ v.region = ∅ ∧
            v.after.annotations.node? d.id = some ∅) ∧
      (m.tree.ids.Nodup → ∀ d ∈ m.defs,
        d.isHole = false → report.annotations.node? d.id = some ∅) := by
  refine ⟨fun d F hcheck => ?_, fun report F hcheck => ?_⟩
  · rw [hcheck] at h
    obtain ⟨s, rfl, hnode | ⟨reg, s₁, -, hsolve⟩⟩ := check_eq_rejected hcheck
    · refine (h.silent ?_).2 d s hnode
      rw [show outcome _ _ = _ from hnode]
      exact .refl _
    · rw [rejects_solveAt hsolve]
      nofun
  · rw [hcheck] at h
    obtain ⟨root, hroot, htree, hempty, hreport⟩ := h.exists_root hcheck
    refine ⟨?_, ⟨root, hroot, htree, fun i d hd hpresent => ?_⟩, fun hids d hd hpresent => ?_⟩
    · have hafter := root.node?_after
      rwa [htree, hempty, ← hreport] at hafter
    · obtain ⟨v, hchild, rfl, hregion⟩ := exists_child_of_root htree hempty hd hpresent
      exact ⟨v, hchild, rfl, hregion, hregion ▸ v.node?_after⟩
    · obtain ⟨i, hi⟩ := List.mem_iff_getElem?.1 hd
      obtain ⟨v, hchild, rfl, hregion⟩ := exists_child_of_root htree hempty hi hpresent
      exact hregion ▸ (hroot.child hchild).node?_report hcheck hids

namespace BindsClosure

/-- A function value that runs the block 2. -/
def closure : Tree := .lambda ⟨2, {}⟩ 4 [] [] (.con "Int" "") (some (.var 1)) (.ref ⟨1, {}⟩ 2)

/-- The function value under a name; their slot is open at first. -/
def named : Tree := .binding ⟨3, {}⟩ 3 (.fn [] [] (.con "Int" "") (some (.var 1))) closure

def body : Tree := .block ⟨5, {}⟩ [named, .ref ⟨4, {}⟩ 3]

def function : Tree := .function ⟨6, {}⟩ 1 [] [2] (.con "Int" "") body

end BindsClosure

open BindsClosure in
/-- A unit in which a function value that runs a block is bound to a name, and the name is used. -/
def bindsClosure : Module := ⟨⟨7, {}⟩, "unit", [function], []⟩

namespace BindsClosure

/-- The places of the unit. -/
def places : List (List Tree × Tree) :=
  [([], bindsClosure.tree), ([bindsClosure.tree], function), ([function, bindsClosure.tree], body),
    ([body, function, bindsClosure.tree], named),
    ([body, function, bindsClosure.tree], .ref ⟨4, {}⟩ 3),
    ([named, body, function, bindsClosure.tree], closure),
    ([closure, named, body, function, bindsClosure.tree], .ref ⟨1, {}⟩ 2)]

theorem mem_places {around : List Tree} {n : Tree} (h : bindsClosure.tree.Stands around n) :
    (around, n) ∈ places := by
  refine h.mem_of_closed List.mem_cons_self ?_
  simp [places, bindsClosure, Module.tree, function, body, named, closure, Tree.children,
    Tree.present, Tree.isHole, Tree.head?]

theorem wellScoped : bindsClosure.WellScoped ⟨[some (.singleton 2)]⟩ where
  imports := nofun
  uses around n symbol hn hused place hbound := by
    have hdeclared : ∀ p ∈ places, ∀ q ∈ places, ∀ x ∈ q.2.declared?, p.2.used? = some x →
        ∀ r ∈ Tree.lexical q.1, r ∈ Tree.lexical p.1 := by decide
    have hinside : ∀ p ∈ places, ∀ q ∈ places, ∀ x ∈ q.2.bindsBelow, p.2.used? = some x →
        ∀ r ∈ Tree.lexical (q.2 :: q.1), r ∈ Tree.lexical p.1 := by decide
    cases hbound with
    | declared hq hdeclares => exact hdeclared _ (mem_places hn) _ (mem_places hq) _ hdeclares hused
    | inside hq hbinds =>
      have hlexical := hinside _ (mem_places hn) _ (mem_places hq) _ hbinds hused
      exact hlexical
  types around info symbol type init hn free hfree := by
    have hplace := mem_places hn
    simp only [places, bindsClosure, Module.tree, function, body, named, closure, List.mem_cons,
      Prod.mk.injEq, reduceCtorEq, and_false, Tree.binding.injEq, List.not_mem_nil, or_self,
      or_false, false_or] at hplace
    obtain ⟨rfl, -, -, rfl, -⟩ := hplace
    cases hfree
    decide

end BindsClosure

/-- The slot is resolved to the block in the middle of the run. Then the name captures the block
inside the function, where the block is bound, and nothing is left outside. -/
theorem verifyScopes_silent_bindsClosure :
    ∃ report, check {} { verifyScopes := true } ⟨[none]⟩ bindsClosure =
      (.ok report, ⟨[some (.singleton 2)]⟩) ∧
      bindsClosure.WellScoped ⟨[some (.singleton 2)]⟩ ∧
      report.annotations.node? 4 = some (.singleton 2) ∧
      report.annotations.node? 7 = some ∅ ∧
      (∃ v, bindsClosure.Visits {} { verifyScopes := true } ⟨[none]⟩ v ∧
        v.tree = BindsClosure.function ∧ v.region = ∅) ∧
      report.annotations.node? 6 = some ∅ := by
  obtain ⟨report, hcheck, hnode⟩ :=
    exists_report (f := fun r => r.annotations.node? 4) (x := some (.singleton 2))
      (F := ⟨[some (.singleton 2)]⟩)
      (show (check {} { verifyScopes := true } ⟨[none]⟩ bindsClosure).1.toOption.map _ = _
        by decide +kernel)
      (by decide +kernel)
  obtain ⟨-, haccepted⟩ := verifyScopes_silent (by rw [hcheck]; exact BindsClosure.wellScoped)
  obtain ⟨hmodule, ⟨root, hroot, -, hvisits⟩, hdefs⟩ := haccepted report _ hcheck
  obtain ⟨v, hchild, htree, hregion, -⟩ := hvisits 0 BindsClosure.function rfl rfl
  exact ⟨report, hcheck, BindsClosure.wellScoped, hnode, hmodule,
    ⟨v, hroot.child hchild, htree, hregion⟩,
    hdefs (by decide) _ List.mem_cons_self rfl⟩

end Module

end RegionCapture
