import Mathlib.Logic.Relation
import RegionCapture.Proofs.Traversal
import RegionCapture.Proofs.Step

/-!
# Runs of a check

A run that succeeds is a chain of moves (`Check.Move`): it annotates, it records nodes, it adds
equations, and it solves them. What every move keeps, the whole run keeps: knowledge is never lost
(`Check.Steps.extends_table`), an equation that was added stays pending until the table knows that
it holds (`Check.Steps.lasts`), and what lies outside the footprint of a part of the run keeps its
annotation (`Check.Steps.sameOutside`). Checking a tree is such a chain, whose footprint are the
nodes and the binders of the tree (`Check.steps_node`).
-/

namespace RegionCapture

/-- The nodes and the symbols that a part of a run may annotate. -/
structure Footprint where
  nodes : NodeId → Prop
  symbols : SymbolId → Prop

/-- The first footprint is a part of the second. -/
structure Footprint.Sub (P Q : Footprint) : Prop where
  nodes : ∀ id, P.nodes id → Q.nodes id
  symbols : ∀ symbol, P.symbols symbol → Q.symbols symbol

/-- Outside the footprint the annotations are the same. -/
structure Annotations.SameOutside (P : Footprint) (a b : Annotations) : Prop where
  nodes : ∀ id, ¬ P.nodes id → b.node? id = a.node? id
  symbols : ∀ symbol, ¬ P.symbols symbol → b.symbol? symbol = a.symbol? symbol
  scopes : ∀ id, ¬ P.nodes id → b.scope? id = a.scope? id

namespace Annotations

variable {P Q : Footprint} {a b c : Annotations} {reg : RegionSet}

theorem SameOutside.refl (P : Footprint) (a : Annotations) : SameOutside P a a :=
  ⟨fun _ _ => rfl, fun _ _ => rfl, fun _ _ => rfl⟩

theorem SameOutside.trans (h : SameOutside P a b) (h' : SameOutside P b c) : SameOutside P a c :=
  ⟨fun id hid => (h'.nodes id hid).trans (h.nodes id hid),
    fun x hx => (h'.symbols x hx).trans (h.symbols x hx),
    fun id hid => (h'.scopes id hid).trans (h.scopes id hid)⟩

theorem SameOutside.mono (h : SameOutside P a b) (hPQ : P.Sub Q) : SameOutside Q a b :=
  ⟨fun id hid => h.nodes id fun hp => hid (hPQ.nodes id hp),
    fun x hx => h.symbols x fun hp => hx (hPQ.symbols x hp),
    fun id hid => h.scopes id fun hp => hid (hPQ.nodes id hp)⟩

theorem sameOutside_annotateNode {id : NodeId} (h : P.nodes id) :
    SameOutside P a (a.annotateNode id reg) := by
  refine ⟨fun i hi => ?_, fun _ _ => rfl, fun _ _ => rfl⟩
  have hne : id ≠ i := fun he => hi (he ▸ h)
  simp [hne]

theorem sameOutside_annotateSymbol {x : SymbolId} (h : P.symbols x) :
    SameOutside P a (a.annotateSymbol x reg) := by
  refine ⟨fun _ _ => rfl, fun y hy => ?_, fun _ _ => rfl⟩
  have hne : x ≠ y := fun he => hy (he ▸ h)
  simp [hne]

theorem sameOutside_annotateScope {id : NodeId} (h : P.nodes id) :
    SameOutside P a (a.annotateScope id reg) := by
  refine ⟨fun _ _ => rfl, fun _ _ => rfl, fun i hi => ?_⟩
  have hne : id ≠ i := fun he => hi (he ▸ h)
  simp [hne]

theorem sameOutside_ownRegions {xs : List SymbolId} (h : ∀ x ∈ xs, P.symbols x) :
    SameOutside P a (Tree.ownRegions xs a) := by
  induction xs generalizing a with
  | nil => exact .refl P a
  | cons x xs ih =>
    have hx : SameOutside P a (a.annotateSymbol x (.singleton (.ofSymbol x))) :=
      sameOutside_annotateSymbol (h x List.mem_cons_self)
    exact hx.trans (ih fun y hy => h y (List.mem_cons_of_mem x hy))

end Annotations

namespace Check

/-- One move of a run: it annotates inside the footprint, records a node, adds equations, or solves
the pending ones. -/
inductive Move (P : Footprint) (s : CheckState) : CheckState → Prop
  | annotate (a : Annotations)
    (same : s.annotations.SameOutside P a) : Move P s { s with annotations := a }
  | record (id : NodeId) (reg : RegionSet) (inside : P.nodes id) :
    Move P s { s with annotations := s.annotations.annotateNode id reg, nodes := s.nodes + 1 }
  | equate (es : List Equation) : Move P s { s with
      store := { s.store with pending := s.store.pending ++ es } }
  | solve (store : EquationStore)
    (solved : s.store.solve = (.ok (), store)) : Move P s { s with store }

/-- A chain of moves. -/
def Steps (P : Footprint) : CheckState → CheckState → Prop := Relation.ReflTransGen (Move P)

/-- The equation is pending, or known to hold. -/
def Ensures (s : CheckState) (e : Equation) : Prop := e ∈ s.store.pending ∨ e.Settled s.store.table

section
variable {P Q : Footprint} {s s₁ s' : CheckState} {e : Equation}

/-! ## What a move keeps -/

theorem Move.mono (h : Move P s s') (hPQ : P.Sub Q) : Move Q s s' := by
  cases h with
  | annotate a same => exact .annotate a (same.mono hPQ)
  | record id reg inside => exact .record id reg (hPQ.nodes id inside)
  | equate es => exact .equate es
  | solve store solved => exact .solve store solved

theorem Move.extends_table (h : Move P s s') : s.store.table.Extends s'.store.table := by
  cases h with
  | annotate => exact .refl _
  | record => exact .refl _
  | equate => exact .refl _
  | solve store solved => exact (EquationStore.solvedTo_solve solved).extends_table

theorem Move.lasts (h : Move P s s') (he : Ensures s e) : Ensures s' e := by
  cases h with
  | annotate => exact he
  | record => exact he
  | equate es => exact he.imp_left fun hmem => List.mem_append_left es hmem
  | solve store solved =>
    have hsolved := EquationStore.solvedTo_solve solved
    rcases he with hmem | hsettled
    · exact hsolved.settles e hmem
    · exact .inr (hsettled.mono hsolved.extends_table)

theorem Move.sameOutside (h : Move P s s') : s.annotations.SameOutside P s'.annotations := by
  cases h with
  | annotate a same => exact same
  | record id reg inside => exact Annotations.sameOutside_annotateNode inside
  | equate => exact .refl P _
  | solve => exact .refl P _

/-! ## What a run keeps -/

theorem Steps.refl (P : Footprint) (s : CheckState) : Steps P s s := Relation.ReflTransGen.refl

theorem Move.steps (h : Move P s s') : Steps P s s' := Relation.ReflTransGen.single h

theorem Steps.trans (h : Steps P s s₁) (h' : Steps P s₁ s') : Steps P s s' :=
  Relation.ReflTransGen.trans h h'

theorem Steps.mono (h : Steps P s s') (hPQ : P.Sub Q) : Steps Q s s' := by
  induction h with
  | refl => exact .refl Q s
  | tail _ hm ih => exact ih.trans (hm.mono hPQ).steps

/-- A run never loses knowledge. -/
theorem Steps.extends_table (h : Steps P s s') : s.store.table.Extends s'.store.table := by
  induction h with
  | refl => exact .refl _
  | tail _ hm ih => exact ih.trans hm.extends_table

/-- An equation that was added lasts until the table knows that it holds. -/
theorem Steps.lasts (h : Steps P s s') (he : Ensures s e) : Ensures s' e := by
  induction h with
  | refl => exact he
  | tail _ hm ih => exact hm.lasts ih

/-- A run that records no node leaves their number alone. -/
theorem Steps.nodes_eq (h : Steps P s s') (hno : ∀ id, ¬ P.nodes id) : s'.nodes = s.nodes := by
  induction h with
  | refl => rfl
  | tail _ hm ih =>
    cases hm with
    | annotate => exact ih
    | record id reg inside => exact absurd inside (hno id)
    | equate => exact ih
    | solve => exact ih

/-- A run annotates nothing outside its footprint. -/
theorem Steps.sameOutside (h : Steps P s s') : s.annotations.SameOutside P s'.annotations := by
  induction h with
  | refl => exact .refl P _
  | tail _ hm ih => exact ih.trans hm.sameOutside

end

end Check

/-! ## The footprint of a tree -/

namespace Tree

def ids (t : Tree) : List NodeId := t.nodes.map id

/-- The symbols that a node annotates itself, when it is entered or left. -/
def introduced : Tree → List SymbolId
  | function _ symbol _ blocks _ _ => symbol :: blocks
  | lambda _ symbol _ blocks _ _ _ => symbol :: blocks
  | blockArg _ _ blocks _ => blocks
  | handle _ _ handlers _ => handlers.map Handler.capability
  | cell _ symbol _ => [symbol]
  | binding _ symbol _ _ => [symbol]
  | _ => []

/-- The symbols that a node binds: those it annotates itself and the resumptions of its clauses. -/
def binders (t : Tree) : List SymbolId := t.introduced ++ t.tasks.filterMap Task.resume

def allBinders (t : Tree) : List SymbolId := t.nodes.flatMap binders

/-- What entering or settling a node may annotate: symbols only. -/
def settling (t : Tree) : Footprint := ⟨fun _ => False, (· ∈ t.introduced)⟩

/-- What a node itself may annotate. -/
def own (t : Tree) : Footprint := ⟨(· = t.id), (· ∈ t.introduced)⟩

/-- What checking a tree may annotate. -/
def footprint (t : Tree) : Footprint := ⟨(· ∈ t.ids), (· ∈ t.allBinders)⟩

/-- What checking trees may annotate, with the resumptions of those that are bodies of clauses. -/
def footprints (ts : List Task) : Footprint :=
  ⟨fun id => ∃ c ∈ ts, id ∈ c.tree.ids,
    fun x => ∃ c ∈ ts, c.resume = some x ∨ x ∈ c.tree.allBinders⟩

theorem eq_hole {t : Tree} (h : t.isHole = true) : t = hole := by
  cases t with
  | hole => rfl
  | _ => cases h

theorem ids_eq {t : Tree} (h : t.isHole = false) :
    t.ids = t.id :: t.tasks.flatMap fun c => c.tree.ids := by
  simp [ids, nodes_eq h, List.map_flatMap]

theorem allBinders_eq {t : Tree} (h : t.isHole = false) :
    t.allBinders = t.binders ++ t.tasks.flatMap fun c => c.tree.allBinders := by
  simp [allBinders, nodes_eq h, List.flatMap_assoc]

theorem settling_sub_own (t : Tree) : t.settling.Sub t.own := ⟨fun _ h => h.elim, fun _ h => h⟩

theorem own_sub_footprint {t : Tree} (h : t.isHole = false) : t.own.Sub t.footprint := by
  refine ⟨fun id hid => ?_, fun x hx => ?_⟩
  · show id ∈ t.ids
    rw [ids_eq h, show id = t.id from hid]
    exact List.mem_cons_self
  · show x ∈ t.allBinders
    rw [allBinders_eq h]
    exact List.mem_append_left _ (List.mem_append_left _ hx)

theorem footprints_sub_footprint {t : Tree} (h : t.isHole = false) :
    (footprints t.tasks).Sub t.footprint := by
  refine ⟨fun id hid => ?_, fun x hx => ?_⟩
  · obtain ⟨c, hc, hid⟩ := hid
    show id ∈ t.ids
    rw [ids_eq h]
    exact List.mem_cons_of_mem _ (List.mem_flatMap.2 ⟨c, hc, hid⟩)
  · obtain ⟨c, hc, hx⟩ := hx
    show x ∈ t.allBinders
    rw [allBinders_eq h]
    rcases hx with hx | hx
    · exact List.mem_append_left _ (List.mem_append_right _ (List.mem_filterMap.2 ⟨c, hc, hx⟩))
    · exact List.mem_append_right _ (List.mem_flatMap.2 ⟨c, hc, hx⟩)

theorem entry_sameOutside (scope : Scope) (t : Tree) (a : Annotations) :
    a.SameOutside t.settling (t.entry scope a) := by
  cases t with
  | function info symbol params blocks result body =>
    exact (Annotations.sameOutside_annotateSymbol List.mem_cons_self).trans
      (Annotations.sameOutside_ownRegions fun x hx => List.mem_cons_of_mem symbol hx)
  | lambda info symbol params blocks result slot body =>
    exact (Annotations.sameOutside_annotateSymbol List.mem_cons_self).trans
      (Annotations.sameOutside_ownRegions fun x hx => List.mem_cons_of_mem symbol hx)
  | blockArg => exact Annotations.sameOutside_ownRegions fun x hx => hx
  | handle => exact Annotations.sameOutside_ownRegions fun x hx => hx
  | cell => exact Annotations.sameOutside_annotateSymbol List.mem_cons_self
  | _ => exact .refl _ a

theorem markScope_sameOutside (t : Tree) (a : Annotations) :
    a.SameOutside t.own (t.markScope a) := by
  unfold markScope
  cases t.bound with
  | none => exact .refl _ a
  | some reg => exact Annotations.sameOutside_annotateScope rfl

end Tree

namespace Check

variable {env : CheckEnv} {scope : Scope} {t : Tree} {ts us : List Task} {s s' : CheckState}
  {reg : RegionSet} {regs : List RegionSet} {P : Footprint} {u : Unit}

/-! ## Leaving a node -/

theorem yields_leave : Yields (leave env scope regs t) s reg s' ↔
    reg = t.region regs (t.markScope s.annotations) ∧
    (env.options.verifyScopes = true → ∀ r ∈ reg, r ∈ scope.lexical) ∧
    ∃ s₁, Yields (settle env regs reg t) { s with annotations := t.markScope s.annotations } () s₁ ∧
      s' = { s₁ with
        annotations := s₁.annotations.annotateNode t.id reg, nodes := s₁.nodes + 1 } := by
  simp only [leave, yields_bind, yields_annotate, yields_get, yields_record]
  constructor
  · rintro ⟨⟨⟩, _, rfl, _, _, ⟨rfl, rfl⟩, ⟨⟩, s₁, hsettle, hverify, rfl, rfl⟩
    exact ⟨rfl, hverify, s₁, hsettle, rfl⟩
  · rintro ⟨rfl, hverify, s₁, hsettle, rfl⟩
    exact ⟨(), _, rfl, _, _, ⟨rfl, rfl⟩, (), s₁, hsettle, hverify, rfl, rfl⟩

/-- The step goes on with the equations and leaves the rest alone. -/
structure Equates (s s' : CheckState) : Prop where
  annotations_eq : s'.annotations = s.annotations
  steps : ∀ P, Steps P s s'

theorem Equates.refl (s : CheckState) : Equates s s := ⟨rfl, fun P => .refl P s⟩

theorem Equates.trans {s₁ : CheckState} (h : Equates s s₁) (h' : Equates s₁ s') : Equates s s' :=
  ⟨h'.annotations_eq.trans h.annotations_eq, fun P => (h.steps P).trans (h'.steps P)⟩

theorem Equates.extends_table (h : Equates s s') : s.store.table.Extends s'.store.table :=
  (h.steps Tree.hole.own).extends_table

theorem equates_solveAt {token : Token} (h : Yields (solveAt env token) s u s') : Equates s s' := by
  obtain ⟨store, hsolve, rfl⟩ := yields_solveAt.1 h
  exact ⟨rfl, fun _ => (Move.solve store hsolve).steps⟩

theorem equates_add (s : CheckState) (es : List Equation) :
    Equates s { s with store := { s.store with pending := s.store.pending ++ es } } :=
  ⟨rfl, fun _ => (Move.equate es).steps⟩

theorem equates_matchSlot {token : Token} {slot : Option Term} {body : Tree}
    (h : Yields (matchSlot env token slot reg body) s u s') : Equates s s' := by
  cases slot with
  | none => exact yields_matchSlot_none.1 h ▸ .refl s
  | some term =>
    rcases (covers_of_yields_matchSlot h).knows_or_open with ⟨expected, hknows⟩ | hopen
    · exact ((yields_matchSlot_of_knows hknows).1 h).2 ▸ .refl s
    · obtain ⟨v, rfl, -⟩ := hopen.eq_var
      exact (equates_add s [⟨.var v, .set reg⟩]).trans
        (equates_solveAt ((yields_matchSlot_of_open hopen).1 h))

theorem equates_instantiate {token : Token} {sig : CallSignature} {type : Ty}
    (h : Yields (instantiate env token sig regs type) s u s') : Equates s s' := by
  cases habsent : type.isAbsent || sig.result.isAbsent with
  | true => exact (yields_instantiate_of_absent habsent).1 h ▸ .refl s
  | false =>
    obtain ⟨result, -, hsolve⟩ := (yields_instantiate habsent).1 h
    exact (equates_add s (type.pairs result)).trans (equates_solveAt hsolve)

theorem steps_annotateSymbol {x : SymbolId} (h : P.symbols x) :
    Steps P s { s with annotations := s.annotations.annotateSymbol x reg } :=
  (Move.annotate _ (Annotations.sameOutside_annotateSymbol h)).steps

/-! ## Settling a node, by its kind -/

section
variable {info : Anchor} {symbol : SymbolId} {params : List Param} {blocks : List SymbolId}
  {result type : Ty} {slot : Option Term} {body callee init : Tree} {handlers : List Handler}
  {args blockArgs : List Tree}

theorem yields_settle_function :
    Yields (settle env regs reg (.function info symbol params blocks result body)) s u s' ↔
      ∃ s₁, Yields (solveAt env info.token) s () s₁ ∧
        result.Avoids s₁.store.table ((capabilities env blocks).add (.ofSymbol symbol)) ∧
        s' = { s₁ with annotations := s₁.annotations.annotateSymbol symbol reg } := by
  simp only [settle, yields_bind, yields_definitionEscape, yields_annotate]
  constructor
  · rintro ⟨⟨⟩, s₁, ⟨hsolve, havoid⟩, hs'⟩
    exact ⟨s₁, hsolve, havoid, hs'⟩
  · rintro ⟨s₁, hsolve, havoid, hs'⟩
    exact ⟨(), s₁, ⟨hsolve, havoid⟩, hs'⟩

theorem yields_settle_lambda :
    Yields (settle env regs reg (.lambda info symbol params blocks result slot body)) s u s' ↔
      ∃ s₁ s₂, Yields (matchSlot env info.token slot reg body) s () s₁ ∧
        Yields (solveAt env info.token) s₁ () s₂ ∧
        result.Avoids s₂.store.table ((capabilities env blocks).add (.ofSymbol symbol)) ∧
        s' = { s₂ with annotations := s₂.annotations.annotateSymbol symbol reg } := by
  simp only [settle, yields_bind, yields_definitionEscape, yields_annotate]
  constructor
  · rintro ⟨⟨⟩, s₁, hmatch, ⟨⟩, s₂, ⟨hsolve, havoid⟩, hs'⟩
    exact ⟨s₁, s₂, hmatch, hsolve, havoid, hs'⟩
  · rintro ⟨s₁, s₂, hmatch, hsolve, havoid, hs'⟩
    exact ⟨(), s₁, hmatch, (), s₂, ⟨hsolve, havoid⟩, hs'⟩

theorem yields_settle_handle :
    Yields (settle env regs reg (.handle info body handlers type)) s u s' ↔
      Yields (solveAt env info.token) s () s' ∧
        type.Avoids s'.store.table (Tree.regionsOf (handlers.map Handler.capability)) :=
  yields_handlerEscape

theorem yields_settle_binding :
    Yields (settle env regs reg (.binding info symbol type init)) s u s' ↔
      ∃ s₁ own, Yields (solveAt env info.token) s () s₁ ∧
        type.freeRegions s₁.store.table = .ok own ∧
        s' = { s₁ with annotations := s₁.annotations.annotateSymbol symbol own } := by
  simp only [settle, yields_bind, yields_table, yields_orFault, yields_annotate]
  constructor
  · rintro ⟨⟨⟩, s₁, hsolve, _, _, ⟨rfl, rfl⟩, own, _, ⟨hown, rfl⟩, hs'⟩
    exact ⟨s₁, own, hsolve, hown, hs'⟩
  · rintro ⟨s₁, own, hsolve, hown, hs'⟩
    exact ⟨(), s₁, hsolve, _, _, ⟨rfl, rfl⟩, own, _, ⟨hown, rfl⟩, hs'⟩

theorem yields_settle_call {sig : CallSignature} (h : calleeSignature env callee = some sig) :
    Yields (settle env regs reg (.call info callee args blockArgs type)) s u s' ↔
      Yields (instantiate env info.token sig (regs.drop (args.length + 1)) type) s u s' := by
  simp only [settle, h]

theorem yields_settle_call_of_unknown (h : calleeSignature env callee = none) :
    Yields (settle env regs reg (.call info callee args blockArgs type)) s u s' ↔ s = s' := by
  simp [settle, h, yields_pure]

theorem equates_settle_call
    (h : Yields (settle env regs reg (.call info callee args blockArgs type)) s u s') :
    Equates s s' := by
  cases hsig : calleeSignature env callee with
  | none => exact (yields_settle_call_of_unknown hsig).1 h ▸ .refl s
  | some sig => exact equates_instantiate ((yields_settle_call hsig).1 h)

end

theorem steps_settle (h : Yields (settle env regs reg t) s u s') : Steps t.settling s s' := by
  cases t with
  | function info symbol params blocks result body =>
    obtain ⟨s₁, hsolve, -, rfl⟩ := yields_settle_function.1 h
    exact ((equates_solveAt hsolve).steps _).trans (steps_annotateSymbol List.mem_cons_self)
  | lambda info symbol params blocks result slot body =>
    obtain ⟨s₁, s₂, hmatch, hsolve, -, rfl⟩ := yields_settle_lambda.1 h
    have hequates := (equates_matchSlot hmatch).trans (equates_solveAt hsolve)
    exact (hequates.steps _).trans (steps_annotateSymbol List.mem_cons_self)
  | handle info body handlers type => exact (equates_solveAt (yields_settle_handle.1 h).1).steps _
  | binding info symbol type init =>
    obtain ⟨s₁, own, hsolve, -, rfl⟩ := yields_settle_binding.1 h
    exact ((equates_solveAt hsolve).steps _).trans (steps_annotateSymbol List.mem_cons_self)
  | call info callee args blockArgs type => exact (equates_settle_call h).steps _
  | _ => exact (yields_pure.1 h).2 ▸ .refl _ s

theorem steps_leave (h : Yields (leave env scope regs t) s reg s') : Steps t.own s s' := by
  obtain ⟨-, -, s₁, hsettle, rfl⟩ := yields_leave.1 h
  have hmark : Steps t.own s { s with annotations := t.markScope s.annotations } :=
    (Move.annotate _ (t.markScope_sameOutside _)).steps
  exact hmark.trans (((steps_settle hsettle).mono t.settling_sub_own).trans
    (Move.record t.id reg rfl).steps)

/-! ## Checking a tree -/

/-- The state in which the trees below a node are checked. -/
def entered (scope : Scope) (t : Tree) (s : CheckState) : CheckState :=
  { s with annotations := t.entry scope s.annotations }

/-- The state in which a tree below a node is checked. -/
def resumed (scope : Scope) (resume : Option SymbolId) (s : CheckState) : CheckState :=
  { s with
    annotations := resume.elim s.annotations fun r => s.annotations.annotateSymbol r scope.dynamic }

theorem node?_entered (scope : Scope) (t : Tree) (s : CheckState) (id : NodeId) :
    (entered scope t s).annotations.node? id = s.annotations.node? id :=
  (t.entry_sameOutside scope s.annotations).nodes id nofun

theorem node?_resumed (scope : Scope) (r : Option SymbolId) (s : CheckState) (id : NodeId) :
    (resumed scope r s).annotations.node? id = s.annotations.node? id := by
  cases r <;> rfl

theorem yields_hole : Yields (node env scope .hole) s reg s' ↔ reg = ∅ ∧ s = s' := by
  rw [show node env scope .hole = pure ∅ by rw [node], yields_pure]
  exact and_congr_left' eq_comm

theorem yields_node (h : t.isHole = false) : Yields (node env scope t) s reg s' ↔
    ∃ regs s₁, Yields (tasks env (t.inner scope) t.tasks) (entered scope t s) regs s₁ ∧
      Yields (leave env scope regs t) s₁ reg s' := by
  rw [node_eq env scope h]
  simp only [yields_bind, yields_annotate]
  constructor
  · rintro ⟨⟨⟩, _, rfl, regs, s₁, hbelow, hleave⟩
    exact ⟨regs, s₁, hbelow, hleave⟩
  · rintro ⟨regs, s₁, hbelow, hleave⟩
    exact ⟨(), _, rfl, regs, s₁, hbelow, hleave⟩

theorem yields_tasks_nil : Yields (tasks env scope []) s regs s' ↔ regs = [] ∧ s = s' := by
  rw [show tasks env scope [] = pure [] from rfl, yields_pure]
  exact and_congr_left' eq_comm

theorem yields_tasks_cons {c : Task} : Yields (tasks env scope (c :: ts)) s regs s' ↔
    ∃ reg s₁ regs', Yields (node env scope c.tree) (resumed scope c.resume s) reg s₁ ∧
      Yields (tasks env scope ts) s₁ regs' s' ∧ regs = reg :: regs' := by
  obtain ⟨resume, t⟩ := c
  simp only [tasks, yields_bind, yields_annotate, yields_pure]
  constructor
  · rintro ⟨⟨⟩, _, rfl, reg, s₁, hnode, regs', _, hrest, rfl, rfl⟩
    exact ⟨reg, s₁, regs', hnode, hrest, rfl⟩
  · rintro ⟨reg, s₁, regs', hnode, hrest, rfl⟩
    exact ⟨(), _, rfl, reg, s₁, hnode, regs', _, hrest, rfl, rfl⟩

theorem yields_tasks_append : Yields (tasks env scope (ts ++ us)) s regs s' ↔
    ∃ regs₁ s₁ regs₂, Yields (tasks env scope ts) s regs₁ s₁ ∧
      Yields (tasks env scope us) s₁ regs₂ s' ∧
      regs = regs₁ ++ regs₂ := by
  rw [tasks_append]
  simp only [yields_bind, yields_pure]
  constructor
  · rintro ⟨regs₁, s₁, hts, regs₂, _, hus, rfl, rfl⟩
    exact ⟨regs₁, s₁, regs₂, hts, hus, rfl⟩
  · rintro ⟨regs₁, s₁, regs₂, hts, hus, rfl⟩
    exact ⟨regs₁, s₁, hts, regs₂, _, hus, rfl, rfl⟩

theorem length_tasks (h : Yields (tasks env scope ts) s regs s') : regs.length = ts.length := by
  induction ts generalizing s regs with
  | nil => rw [(yields_tasks_nil.1 h).1]; rfl
  | cons c ts ih =>
    obtain ⟨reg, s₁, regs', -, hrest, rfl⟩ := yields_tasks_cons.1 h
    simp [ih hrest]

theorem steps_resumed {r : Option SymbolId} (h : ∀ x, r = some x → P.symbols x) :
    Steps P s (resumed scope r s) := by
  cases r with
  | none => exact .refl P s
  | some x => exact steps_annotateSymbol (h x rfl)

theorem steps_tasks_of_nodes (h : Yields (tasks env scope ts) s regs s')
    (ih : ∀ c ∈ ts, ∀ {scope s reg s'}, Yields (node env scope c.tree) s reg s' →
      Steps c.tree.footprint s s') :
    Steps (Tree.footprints ts) s s' := by
  induction ts generalizing s regs with
  | nil => exact (yields_tasks_nil.1 h).2 ▸ .refl _ s
  | cons c ts ihts =>
    obtain ⟨reg, s₁, regs', hnode, hrest, rfl⟩ := yields_tasks_cons.1 h
    have hfirst : c.tree.footprint.Sub (Tree.footprints (c :: ts)) :=
      ⟨fun id hid => ⟨c, List.mem_cons_self, hid⟩, fun x hx => ⟨c, List.mem_cons_self, .inr hx⟩⟩
    have hlater : (Tree.footprints ts).Sub (Tree.footprints (c :: ts)) :=
      ⟨fun id ⟨d, hd, hid⟩ => ⟨d, List.mem_cons_of_mem c hd, hid⟩,
        fun x ⟨d, hd, hx⟩ => ⟨d, List.mem_cons_of_mem c hd, hx⟩⟩
    have hstart : Steps (Tree.footprints (c :: ts)) s (resumed scope c.resume s) :=
      steps_resumed fun x hx => ⟨c, List.mem_cons_self, .inl hx⟩
    have hrest := ihts hrest fun d hd => ih d (List.mem_cons_of_mem c hd)
    exact hstart.trans (((ih c List.mem_cons_self hnode).mono hfirst).trans (hrest.mono hlater))

/-- Checking a tree is a chain of moves that annotates only its nodes and its binders. -/
theorem steps_node (h : Yields (node env scope t) s reg s') : Steps t.footprint s s' := by
  induction t using Tree.induction_on_tasks generalizing scope s reg s' with
  | step t ih =>
    cases hhole : t.isHole with
    | true =>
      rw [Tree.eq_hole hhole] at h ⊢
      exact (yields_hole.1 h).2 ▸ .refl _ s
    | false =>
      obtain ⟨regs, s₁, hbelow, hleave⟩ := (yields_node hhole).1 h
      have henter : Steps t.own s (entered scope t s) :=
        (Move.annotate _ ((t.entry_sameOutside scope _).mono t.settling_sub_own)).steps
      have htasks := steps_tasks_of_nodes hbelow fun c hc => ih c hc
      have hown := t.own_sub_footprint hhole
      exact (henter.mono hown).trans
        ((htasks.mono (t.footprints_sub_footprint hhole)).trans ((steps_leave hleave).mono hown))

theorem steps_tasks (h : Yields (tasks env scope ts) s regs s') : Steps (Tree.footprints ts) s s' :=
  steps_tasks_of_nodes h fun _ _ => steps_node

/-- The whole check: the tree of the unit, and then what is left to solve. -/
def whole (env : CheckEnv) (m : Module) : Check Unit := do
  let _ ← node env {} m.tree
  solveAt env m.info.token

theorem unit_eq_whole (env : CheckEnv) (m : Module) : unit env m = whole env m := by
  simp only [unit, whole, discard, Functor.discard, map_const, Function.comp, map_eq_pure_bind,
    bind_assoc, pure_bind]

end Check

theorem Module.check_eq (symbols : SymbolTable) (options : Options) (table : Table) (m : Module) :
    check symbols options table m =
      ((Check.outcome (Check.whole (m.env symbols options) m) (m.start table)).1.map fun _ =>
        (Check.outcome (Check.whole (m.env symbols options) m) (m.start table)).2.report,
       (Check.outcome (Check.whole (m.env symbols options) m) (m.start table)).2.store.table) := by
  rw [← Check.unit_eq_whole]
  rfl

end RegionCapture
