import RegionCapture.Proofs.Origin

/-!
# Acceptance of units without variables

If no region variable occurs in the types of a unit, nothing is left to solve: the check infers
regions as it would without any obligations, and compares. A node is admissible (`Tree.Admissible`)
if the slot of a function value contains the regions found for it, the slots of a call are those of
the callee with its blocks replaced, and no region leaves its scope through a result type. Main
statement `Module.acceptance_exact`: the check accepts such a unit iff all nodes are admissible with
the regions that inference finds (`Module.infer`), and then it annotates what inference annotates.
-/

namespace RegionCapture

/-! ## Types without variables -/

namespace Ty

/-- No variable occurs in the type: every slot holds a set. -/
def Ground (type : Ty) : Prop := type.EverySlot fun term => ∃ s, term = .set s

variable {type result : Ty}

theorem Ground.covered (h : type.Ground) (table : Table) : type.EverySlot table.Covers := by
  refine h.imp fun term hterm => ?_
  obtain ⟨s, rfl⟩ := hterm
  exact Table.covers_set

theorem unionKnown_of_sets {terms : List Term} (h : ∀ term ∈ terms, ∃ s, term = .set s)
    (t u : Table) :
    unionKnown t terms = unionKnown u terms := by
  suffices hfold : ∀ acc, terms.foldlM (addKnown t) acc = terms.foldlM (addKnown u) acc from hfold ∅
  induction terms with
  | nil => exact fun acc => rfl
  | cons term terms ih =>
    intro acc
    obtain ⟨⟨s, rfl⟩, hrest⟩ := List.forall_mem_cons.1 h
    exact ih hrest (acc ∪ s)

/-- The regions of a type without variables do not depend on the table. -/
theorem Ground.freeRegions_eq (h : type.Ground) (t u : Table) :
    type.freeRegions t = type.freeRegions u := by
  unfold freeRegions
  cases hslots : type.slots with
  | error f => rfl
  | ok terms =>
    have hunion := unionKnown_of_sets (h.of_mem_slots hslots) t u
    simp only [bind, Except.bind, hunion]

theorem Ground.avoids_iff {forbidden : RegionSet} {C : Region → Prop} (h : type.Ground)
    (hC : ∀ {r}, r ∈ forbidden ↔ C r) (t u : Table) :
    type.Avoids t forbidden ↔ ∃ free, type.freeRegions u = .ok free ∧ ∀ r ∈ free, ¬ C r := by
  rw [Avoids, h.freeRegions_eq t u]
  simp only [hC]

theorem Ground.eq_sets_of_mem_pairs {e : Equation} (h : type.Ground) (hresult : result.Ground)
    (he : e ∈ type.pairs result) : ∃ a b, e = ⟨.set a, .set b⟩ := by
  obtain ⟨⟨a, ha⟩, b, hb⟩ := h.of_mem_pairs hresult he
  obtain ⟨left, right⟩ := e
  cases ha
  cases hb
  exact ⟨a, b, rfl⟩

end Ty

theorem Equation.substituted_sets (s : RegionSubst) (table : Table) (a b : RegionSet) :
    (⟨.set a, .set b⟩ : Equation).substituted s table = ⟨.set a, .set (s.onSet b)⟩ := by
  unfold substituted
  split
  · rename_i hnil
    rw [hnil, RegionSubst.onSet_nil]
  · rw [onRight, RegionSubst.onTerm_of_knows (Table.knows_set.2 rfl)]

/-- The slots of a call are those of the callee with its blocks replaced, whatever the table. -/
theorem Ty.Ground.pairs_eq_iff {table : Table} {s : RegionSubst} {type result result' : Ty}
    (h : type.Ground) (hresult : result.Ground) (hsubst : result.subst table s = .ok result') :
    (∀ e ∈ type.pairs result', e.left = e.right) ↔
    ∀ a b, ⟨.set a, .set b⟩ ∈ type.pairs result → a = s.onSet b := by
  rw [Ty.pairs_subst type hsubst]
  simp only [List.forall_mem_map]
  constructor
  · intro heq a b hmem
    have hsides := heq _ hmem
    rw [Equation.substituted_sets] at hsides
    exact Term.set.inj hsides
  · intro heq e he
    obtain ⟨a, b, rfl⟩ := h.eq_sets_of_mem_pairs hresult he
    rw [Equation.substituted_sets, heq a b he]

/-! ## Admissible nodes -/

namespace Tree

/-- The blocks passed at a call. -/
def blockArgs : Tree → List Tree
  | call _ _ _ blockArgs _ => blockArgs
  | _ => []

/-- The regions of the blocks passed at a call, among those of all trees below it. -/
def passed (regs : List RegionSet) : Tree → List RegionSet
  | call _ _ args _ _ => regs.drop (args.length + 1)
  | _ => []

/-- The node is a call with the given type of a function with the given signature, and neither type
is absent. -/
inductive Calls (env : CheckEnv) (type : Ty) (sig : CallSignature) : Tree → Prop
  | intro {info : Anchor} {callee : Tree} {args blockArgs : List Tree}
    (known : Check.calleeSignature env callee = some sig)
    (present : (type.isAbsent || sig.result.isAbsent) = false) :
    Calls env type sig (call info callee args blockArgs type)

/-- What a node with the given regions, which passes blocks with the given regions, has to
satisfy. -/
structure Admissible (env : CheckEnv) (table : Table) (reg : RegionSet) (blocks : List RegionSet)
    (n : Tree) : Prop where
  /-- a known slot contains the regions of its function value -/
  closure : ∀ bound, n.slot? = some (.set bound) → ∀ r ∈ reg, r ∈ bound
  /-- the slots of a call are those of the callee's result, in which the blocks are substituted -/
  call : ∀ type sig, n.Calls env type sig →
    ∃ result, sig.result.subst table (sig.passing blocks) = .ok result ∧
    ∀ e ∈ type.pairs result, e.left = e.right
  /-- the type of the result mentions no region that must not leave the node -/
  confined : ∀ type, n.resultType? = some type → ∃ free, type.freeRegions table = .ok free ∧
    ∀ r ∈ free, ¬ n.Confines env.symbols r

theorem passed_map (f : Tree → RegionSet) (n : Tree) :
    n.passed (n.tasks.map fun c => f c.tree) = n.blockArgs.map f := by
  cases n with
  | call info callee args blockArgs type =>
    simp [passed, Tree.blockArgs, tasks, task, Function.comp_def]
  | _ => rfl

/-- No variable occurs in the types at the node, nor in the results of the functions it may call. -/
structure Ground (env : CheckEnv) (n : Tree) : Prop where
  types : ∀ type ∈ n.types, type.Ground
  results : ∀ callee sig, Check.calleeSignature env callee = some sig → sig.result.Ground

variable {env : CheckEnv} {table F : Table} {regs : List RegionSet} {reg : RegionSet} {n : Tree}

theorem Ground.lambda {info : Anchor} {symbol : SymbolId} {params : List Param}
    {blocks : List SymbolId} {result : Ty} {slot : Option Term} {body : Tree}
    (h : (lambda info symbol params blocks result slot body).Ground env) :
    result.Ground ∧ ∀ term, slot = some term → ∃ s, term = .set s := by
  have hvalue : (Ty.fn [] [] result slot).Ground := h.types _ List.mem_cons_self
  exact ⟨hvalue.2.2.1, hvalue.2.2.2⟩

/-- An admissible node has nothing to fear from any table. -/
theorem Admissible.sound (h : n.Admissible env table reg (n.passed regs)) (hground : n.Ground env)
    (F : Table) :
    n.Sound env F regs reg := by
  cases n with
  | function info symbol params blocks result body =>
    have hresult : result.Ground := hground.types result List.mem_cons_self
    exact (hresult.avoids_iff Check.mem_capabilities_add F table).2 (h.confined result rfl)
  | lambda info symbol params blocks result slot body =>
    obtain ⟨hresult, hslot⟩ := hground.lambda
    refine ⟨fun term expected hterm hknows => ?_, ?_⟩
    · obtain ⟨bound, rfl⟩ := hslot term hterm
      rw [← Table.knows_set.1 hknows]
      exact h.closure bound hterm
    · exact (hresult.avoids_iff Check.mem_capabilities_add F table).2 (h.confined result rfl)
  | handle info body handlers type =>
    have htype : type.Ground := hground.types type List.mem_cons_self
    exact (htype.avoids_iff Check.mem_handled F table).2 (h.confined type rfl)
  | call info callee args blockArgs type =>
    intro sig hsig e he sa sb hleft hright
    have htype : type.Ground := hground.types type List.mem_cons_self
    have hresult := hground.results callee sig hsig
    obtain ⟨result, hsubst, heq⟩ := h.call type sig (.intro hsig (Ty.present_of_mem_pairs he))
    obtain ⟨a, b, rfl⟩ := htype.eq_sets_of_mem_pairs hresult he
    rw [← Table.knows_set.1 hleft, ← Table.knows_set.1 hright]
    exact (htype.pairs_eq_iff hresult hsubst).1 heq a b he
  | _ => trivial

/-- Without variables every table has an answer to what a node asks, if the type of a binding can be
read at all. -/
theorem Ground.decided (h : n.Ground env) (F : Table)
    (hread : ∀ info symbol type init,
      n = binding info symbol type init → ∃ own, type.freeRegions F = .ok own) :
    n.Decided env F := by
  cases n with
  | lambda info symbol params blocks result slot body =>
    intro term hterm
    obtain ⟨s, rfl⟩ := h.lambda.2 term hterm
    exact ⟨s, Table.knows_set.2 rfl⟩
  | binding info symbol type init => exact hread info symbol type init rfl
  | call info callee args blockArgs type =>
    intro sig hsig _
    have htype : type.Ground := h.types type List.mem_cons_self
    have hresult := h.results callee sig hsig
    refine ⟨fun e he => ?_, fun regs _ => Ty.exists_subst_of_covers (hresult.covered F) _⟩
    obtain ⟨a, b, rfl⟩ := htype.eq_sets_of_mem_pairs hresult he
    exact .inl ⟨a, b, Table.knows_set.2 rfl, Table.knows_set.2 rfl⟩
  | _ => trivial

end Tree

namespace Check

variable {env : CheckEnv} {token : Token} {scope : Scope} {t : Tree} {s s' : CheckState}
  {reg forbidden : RegionSet} {regs : List RegionSet} {type : Ty} {body : Tree} {u : Unit}

/-! ## What the check makes sure of -/

theorem confined_of_yields_settle (hground : t.Ground env)
    (h : Yields (settle env regs reg t) s u s') (htype : t.resultType? = some type)
    (table : Table) :
    ∃ free, type.freeRegions table = .ok free ∧ ∀ r ∈ free, ¬ t.Confines env.symbols r := by
  cases t with
  | function info symbol params blocks result body =>
    cases htype
    have hresult : type.Ground := hground.types type List.mem_cons_self
    obtain ⟨s₁, -, havoids, -⟩ := yields_settle_function.1 h
    exact (hresult.avoids_iff mem_capabilities_add _ table).1 havoids
  | lambda info symbol params blocks result slot body =>
    cases htype
    obtain ⟨s₁, s₂, -, -, havoids, -⟩ := yields_settle_lambda.1 h
    exact (hground.lambda.1.avoids_iff mem_capabilities_add _ table).1 havoids
  | handle info body handlers result =>
    cases htype
    have hresult : type.Ground := hground.types type List.mem_cons_self
    exact (hresult.avoids_iff mem_handled _ table).1 (yields_settle_handle.1 h).2
  | _ => cases htype

/-- A call whose equations are solved has equal sets on both sides, because an equation between sets
never stays pending. -/
theorem call_of_yields_settle {sig : CallSignature} (hground : t.Ground env)
    (h : Yields (settle env regs reg t) s u s') (hcalls : t.Calls env type sig) (table : Table) :
    ∃ result, sig.result.subst table (sig.passing (t.passed regs)) = .ok result ∧
      ∀ e ∈ type.pairs result, e.left = e.right := by
  cases hcalls with
  | @intro info callee args blockArgs known present =>
    have htype : type.Ground := hground.types type List.mem_cons_self
    have hresult := hground.results callee sig known
    obtain ⟨result, hsubst, hsolve⟩ :=
      (yields_instantiate present).1 ((yields_settle_call known).1 h)
    obtain ⟨store, hstore, -⟩ := yields_solveAt.1 hsolve
    have hsolved := EquationStore.solvedTo_solve hstore
    have heq : ∀ e ∈ type.pairs result, e.left = e.right := by
      intro e he
      rw [Ty.pairs_subst type hsubst] at he
      obtain ⟨e', he', rfl⟩ := List.mem_map.1 he
      obtain ⟨a, b, rfl⟩ := htype.eq_sets_of_mem_pairs hresult he'
      rw [Equation.substituted_sets] at he ⊢
      rcases hsolved.settles _ (List.mem_append_right _ (Ty.pairs_subst type hsubst ▸ he))
        with hpending | hsettled
      · exact absurd (Equation.isStuck_iff.1 (hsolved.stuck _ hpending)).2.1 Table.not_open_set
      · rcases hsettled with hsame | ⟨set, hleft, hright⟩
        · exact hsame
        · rw [Table.knows_set.1 hleft, Table.knows_set.1 hright]
    obtain ⟨result', hsubst'⟩ := Ty.exists_subst_of_covers (hresult.covered table)
      (sig.passing (regs.drop (args.length + 1)))
    exact ⟨result', hsubst',
      (htype.pairs_eq_iff hresult hsubst').2 ((htype.pairs_eq_iff hresult hsubst).1 heq)⟩

/-- A node that the check has settled is admissible. -/
theorem admissible_of_yields_settle (hground : t.Ground env)
    (h : Yields (settle env regs reg t) s u s') (table : Table) :
    t.Admissible env table reg (t.passed regs) where
  closure bound hslot := by
    cases t with
    | lambda info symbol params blocks result slot body =>
      obtain rfl : slot = some (.set bound) := hslot
      obtain ⟨s₁, -, hmatch, -⟩ := yields_settle_lambda.1 h
      exact ((yields_matchSlot_of_knows (Table.knows_set.2 rfl)).1 hmatch).1
    | _ => cases hslot
  call type sig hcalls := call_of_yields_settle hground h hcalls table
  confined type htype := confined_of_yields_settle hground h htype table

/-! ## Inference annotates as the check does -/

theorem annotations_of_yields_solveAt (h : Yields (solveAt env token) s u s') :
    s'.annotations = s.annotations :=
  (equates_solveAt h).annotations_eq

theorem annotations_of_rejects_solveAt {d : Diagnostic} (h : Rejects (solveAt env token) s d s') :
    s'.annotations = s.annotations := by
  rw [(clash_of_rejects_solveAt h).2]

theorem annotations_solveAt (h : Yields (ignoring (solveAt env token)) s u s') :
    s'.annotations = s.annotations := by
  rcases yields_ignoring.1 h with h | ⟨d, h⟩
  · exact annotations_of_yields_solveAt h
  · exact annotations_of_rejects_solveAt h

theorem annotations_definitionEscape {symbol : SymbolId}
    (h : Yields (ignoring (definitionEscape env token symbol type forbidden body)) s u s') :
    s'.annotations = s.annotations := by
  rcases yields_ignoring.1 h with h | ⟨d, h⟩
  · exact annotations_of_yields_solveAt (yields_definitionEscape.1 h).1
  · rcases rejects_definitionEscape h with h | ⟨h, -⟩
    · exact annotations_of_rejects_solveAt h
    · exact annotations_of_yields_solveAt h

theorem annotations_handlerEscape {handlers : List Handler}
    (h : Yields (ignoring (handlerEscape env token handlers type forbidden body)) s u s') :
    s'.annotations = s.annotations := by
  rcases yields_ignoring.1 h with h | ⟨d, h⟩
  · exact annotations_of_yields_solveAt (yields_handlerEscape.1 h).1
  · rcases rejects_handlerEscape h with h | ⟨h, -⟩
    · exact annotations_of_rejects_solveAt h
    · exact annotations_of_yields_solveAt h

theorem annotations_matchSlot {slot : Option Term}
    (h : Yields (ignoring (matchSlot env token slot reg body)) s u s') :
    s'.annotations = s.annotations := by
  rcases yields_ignoring.1 h with h | ⟨d, h⟩
  · exact (equates_matchSlot h).annotations_eq
  · obtain ⟨-, -, ⟨-, rfl⟩ | ⟨v, -, h⟩⟩ := rejects_matchSlot h
    · rfl
    · rw [annotations_of_rejects_solveAt h]

theorem annotations_instantiate {sig : CallSignature}
    (h : Yields (ignoring (instantiate env token sig regs type)) s u s') :
    s'.annotations = s.annotations := by
  rcases yields_ignoring.1 h with h | ⟨d, h⟩
  · exact (equates_instantiate h).annotations_eq
  · obtain ⟨result, h⟩ := rejects_instantiate h
    rw [annotations_of_rejects_solveAt h]

/-- Settling annotates symbols only, also with its rejections ignored. -/
theorem node?_settleBy_ignoring (h : Yields (settleBy ignoring env regs reg t) s u s')
    (id : NodeId) :
    s'.annotations.node? id = s.annotations.node? id := by
  cases t with
  | function =>
    obtain ⟨⟨⟩, s₁, hescape, hannotate⟩ := yields_bind.1 h
    rw [yields_annotate.1 hannotate, ← annotations_definitionEscape hescape]
    rfl
  | lambda =>
    obtain ⟨⟨⟩, s₁, hmatch, h⟩ := yields_bind.1 h
    obtain ⟨⟨⟩, s₂, hescape, hannotate⟩ := yields_bind.1 h
    rw [yields_annotate.1 hannotate, ← annotations_matchSlot hmatch,
      ← annotations_definitionEscape hescape]
    rfl
  | handle => rw [annotations_handlerEscape h]
  | binding =>
    obtain ⟨⟨⟩, s₁, hsolve, h⟩ := yields_bind.1 h
    obtain ⟨_, _, htable, h⟩ := yields_bind.1 h
    obtain ⟨-, rfl⟩ := yields_table.1 htable
    obtain ⟨own, _, hown, hannotate⟩ := yields_bind.1 h
    obtain ⟨-, rfl⟩ := yields_orFault.1 hown
    rw [yields_annotate.1 hannotate, ← annotations_solveAt hsolve]
    rfl
  | call info callee args blockArgs type =>
    simp only [settleBy] at h
    cases hsig : calleeSignature env callee with
    | none =>
      rw [hsig] at h
      rw [(yields_pure.1 h).2]
    | some sig =>
      rw [hsig] at h
      rw [annotations_instantiate h]
  | _ => rw [(yields_pure.1 h).2]

theorem marks_leaveBy_ignoring (hverify : env.options.verifyScopes = false) :
    Marks (leaveBy ignoring env) := by
  intro scope regs t s reg s' h id
  obtain ⟨-, s₁, hsettle, rfl⟩ := (yields_leaveBy hverify).1 h
  have hmarked : (t.markScope s.annotations).node? id = s.annotations.node? id := by
    unfold Tree.markScope
    cases t.bound <;> rfl
  rw [Annotations.node?_annotateNode, node?_settleBy_ignoring hsettle id, hmarked]

/-- Inference reads the type of every binding it comes to. -/
theorem exists_freeRegions_of_yields {info : Anchor} {symbol : SymbolId} {init : Tree}
    (h : Yields (settleBy ignoring env regs reg (.binding info symbol type init)) s u s') :
    ∃ F own, type.freeRegions F = .ok own := by
  obtain ⟨⟨⟩, s₁, -, h⟩ := yields_bind.1 h
  obtain ⟨_, _, htable, h⟩ := yields_bind.1 h
  obtain ⟨rfl, rfl⟩ := yields_table.1 htable
  obtain ⟨own, _, hown, -⟩ := yields_bind.1 h
  exact ⟨_, own, (yields_orFault.1 hown).1⟩

theorem not_rejects_settleBy_ignoring {d : Diagnostic} :
    ¬ Rejects (settleBy ignoring env regs reg t) s d s' := by
  intro h
  cases t with
  | function =>
    rcases rejects_bind.1 h with h | ⟨_, _, -, h⟩
    · exact not_rejects_ignoring h
    · exact not_rejects_modify h
  | lambda =>
    rcases rejects_bind.1 h with h | ⟨_, _, -, h⟩
    · exact not_rejects_ignoring h
    · rcases rejects_bind.1 h with h | ⟨_, _, -, h⟩
      · exact not_rejects_ignoring h
      · exact not_rejects_modify h
  | handle => exact not_rejects_ignoring h
  | binding =>
    rcases rejects_bind.1 h with h | ⟨_, _, -, h⟩
    · exact not_rejects_ignoring h
    · obtain ⟨_, -, h⟩ := reads_table.rejects_bind h
      obtain ⟨_, -, h⟩ := (reads_orFault _).rejects_bind h
      exact not_rejects_modify h
  | call info callee args blockArgs type =>
    simp only [settleBy] at h
    cases hsig : calleeSignature env callee with
    | none =>
      rw [hsig] at h
      cases h
    | some sig =>
      rw [hsig] at h
      exact not_rejects_ignoring h
  | _ => cases h

theorem not_rejects_leaveBy_ignoring (hverify : env.options.verifyScopes = false) {d : Diagnostic} :
    ¬ Rejects (leaveBy ignoring env scope regs t) s d s' := by
  intro h
  rcases rejects_bind.1 h with h | ⟨_, _, -, h⟩
  · exact not_rejects_modify h
  · rcases rejects_bind.1 h with h | ⟨_, _, -, h⟩
    · cases h
    · rcases rejects_bind.1 h with h | ⟨_, _, -, h⟩
      · exact not_rejects_settleBy_ignoring h
      · rw [recordBy_of_not_verified _ hverify] at h
        exact absurd (rejects_record h).1 (by simp [hverify])

end Check

/-! ## Accepted units -/

namespace Module

open Check

variable {symbols : SymbolTable} {options : Options} {table F : Table} {m : Module}
  {report : CheckReport} {a : Annotations} {p : Arrival}

/-- No region variable occurs in the types of the unit. -/
def VariableFree (m : Module) : Prop := ∀ type ∈ m.types, type.Ground

theorem VariableFree.ground (h : m.VariableFree) (symbols : SymbolTable) (options : Options)
    {n : Tree} (hn : n ∈ m.tree.nodes) : n.Ground (m.env symbols options) :=
  ⟨fun type htype => h type (mem_types_of_node hn htype),
    fun _ _ hsig => h _ (result_mem_types hsig)⟩

/-- The regions of a node arrived at, and of the blocks it passes, are admissible. -/
def AdmissibleAt (m : Module) (symbols : SymbolTable) (options : Options) (table : Table)
    (p : Arrival) : Prop :=
  p.node.Admissible (m.env symbols options) table p.region (p.node.passed p.regs)

theorem infer_of_check (hverify : options.verifyScopes = false)
    (h : check symbols options table m = (.ok report, F)) :
    m.infer symbols options table = .ok report.annotations := by
  obtain ⟨reg, s, final, hnode, hsolve, rfl, -⟩ := check_eq_ok.1 h
  exact infer_eq_ok.2 ⟨reg, s, final, yields_infer hverify hnode,
    yields_ignoring.2 (.inl hsolve), rfl⟩

/-- In an accepted unit every node that inference comes to is admissible. -/
theorem admissibleAt_of_check (hfree : m.VariableFree) (hverify : options.verifyScopes = false)
    (h : check symbols options table m = (.ok report, F))
    (hp : Reaches (Check.infer (m.env symbols options)) {} m.tree (m.start table) p) :
    m.AdmissibleAt symbols options table p := by
  obtain ⟨reg, s, final, hnode, -⟩ := check_eq_ok.1 h
  have hreached := (outline_node _).reaches_of_yields (yields_infer hverify) hnode hp
  obtain ⟨reg', s₁, hleft, -⟩ := (outline_node _).exists_left hnode hreached
  obtain ⟨rfl, -, s₂, hsettle, -⟩ := yields_leave.1 hleft
  exact admissible_of_yields_settle (hfree.ground symbols options hp.mem_nodes) hsettle table

/-- If every node that inference comes to is admissible, the check goes through. -/
theorem exists_yields_node (hfree : m.VariableFree) (hverify : options.verifyScopes = false)
    {reg : RegionSet} {s : CheckState}
    (hinfer : Yields (Check.infer (m.env symbols options) {} m.tree) (m.start table) reg s)
    (hall : ∀ p, Reaches (Check.infer (m.env symbols options)) {} m.tree (m.start table) p →
      m.AdmissibleAt symbols options table p) :
    ∃ reg s, Yields (node (m.env symbols options) {} m.tree) (m.start table) reg s := by
  rcases hnode : (node (m.env symbols options) {} m.tree).outcome (m.start table)
    with ⟨e | reg', s'⟩
  · -- a check that fails does so in leaving an admissible node, which goes through
    obtain ⟨p, hp, hfails⟩ := (outline_node _).exists_failing hnode
    have hreached := hp.mono (yields_infer hverify)
    have hground := hfree.ground symbols options hp.mem_nodes
    have hread : ∀ info symbol type init, p.node = .binding info symbol type init →
        ∃ own, type.freeRegions p.state.store.table = .ok own := by
      intro info symbol type init hbinding
      obtain ⟨reg₁, s₁, hleft, -⟩ := (outline_infer _).exists_left hinfer hreached
      obtain ⟨-, s₂, hsettle, -⟩ := (yields_leaveBy hverify).1 hleft
      rw [hbinding] at hsettle hground
      obtain ⟨F, own, hown⟩ := exists_freeRegions_of_yields hsettle
      rw [(hground.types type List.mem_cons_self).freeRegions_eq F p.state.store.table] at hown
      exact ⟨own, hown⟩
    have hfrozen : Frozen p.state.store.table p.marked := ⟨rfl, resting_arrival hp⟩
    obtain ⟨s₁, hsettle, -⟩ := hfrozen.exists_settle (hground.decided _ hread) hp.length_regs
      ((hall p hreached).sound hground _)
    have hleft : Yields (leave (m.env symbols options) p.scope p.regs p.node) p.state p.region _ :=
      yields_leave.2 ⟨rfl, fun h => absurd h (by simp [Module.env, hverify]), s₁, hsettle, rfl⟩
    cases hfails.symm.trans hleft
  · exact ⟨reg', s', hnode⟩

/-- With different numbers for all nodes, the regions at arrivals are those of the final
annotations. -/
theorem admissibleAt_iff (hverify : options.verifyScopes = false) (hids : m.tree.ids.Nodup)
    {reg : RegionSet} {s : CheckState}
    (hinfer : Yields (Check.infer (m.env symbols options) {} m.tree) (m.start table) reg s) :
    (∀ p, Reaches (Check.infer (m.env symbols options)) {} m.tree (m.start table) p →
        m.AdmissibleAt symbols options table p) ↔
      ∀ n ∈ m.tree.nodes, n.Admissible (m.env symbols options) table (n.regionIn s.annotations)
        (n.blockArgs.map (Tree.regionIn s.annotations)) := by
  have hregions : ∀ p, Reaches (Check.infer (m.env symbols options)) {} m.tree (m.start table) p →
      p.region = p.node.regionIn s.annotations ∧
        p.node.passed p.regs = p.node.blockArgs.map (Tree.regionIn s.annotations) := by
    intro p hp
    obtain ⟨⟨s₁, hleft⟩, hregs⟩ :=
      (outline_infer _).arrival_annotated (marks_leaveBy_ignoring hverify) hinfer hp hids
    obtain ⟨hregion, -⟩ := (yields_leaveBy hverify).1 hleft
    exact ⟨hregion.symm, by rw [hregs, Tree.passed_map]⟩
  constructor
  · intro hall n hn
    obtain ⟨p, hp, rfl⟩ := (outline_infer _).exists_arrival hinfer hn
    obtain ⟨hregion, hpassed⟩ := hregions p hp
    rw [← hregion, ← hpassed]
    exact hall p hp
  · intro hall p hp
    obtain ⟨hregion, hpassed⟩ := hregions p hp
    rw [AdmissibleAt, hregion, hpassed]
    exact hall p.node hp.mem_nodes

/-- Inference goes through if no part of a type is absent where one has to be there. -/
theorem exists_infer (hfree : m.VariableFree) (hverify : options.verifyScopes = false)
    (hwhole : ∀ type ∈ m.types, type.Whole) : ∃ a, m.infer symbols options table = .ok a := by
  have hwell : m.WellTyped table :=
    fun type htype => ⟨(hfree type htype).covered table, hwhole type htype⟩
  have hguard : ∀ x, Safe table x → Safe table (ignoring x) := fun _ hx => hx.ignoring
  rcases hinfer : (Check.infer (m.env symbols options) {} m.tree).outcome (m.start table)
    with ⟨(d | f) | reg, s⟩
  · obtain ⟨p, -, hfails⟩ := (outline_infer _).exists_failing hinfer
    exact absurd hfails (not_rejects_leaveBy_ignoring hverify)
  · exact absurd hinfer (hwell.traverse_ne_fault hguard)
  · have hcovering : Covering table s := hwell.covering_of_yields hguard hinfer
    have hsafe : Safe table (ignoring (solveAt (m.env symbols options) m.info.token)) :=
      safe_solveAt.ignoring
    rcases hsolve : (ignoring (solveAt (m.env symbols options) m.info.token)).outcome s
      with ⟨(d | f) | ⟨⟨⟩⟩, final⟩
    · exact absurd hsolve not_rejects_ignoring
    · exact absurd (congrArg Prod.fst hsolve) (hsafe.faultless s hcovering f)
    · exact ⟨final.annotations, infer_eq_ok.2 ⟨reg, s, final, hinfer, hsolve, rfl⟩⟩

/-- On units without variables acceptance is exact: the check accepts iff every node that inference
comes to is admissible. With different numbers for all nodes this can be read off the annotations of
inference, which are those of the report. -/
theorem acceptance_exact (hfree : m.VariableFree) (hverify : options.verifyScopes = false) :
    ((∃ report, (check symbols options table m).1 = .ok report) ↔
      ∃ a, m.infer symbols options table = .ok a ∧
        ∀ p, Reaches (Check.infer (m.env symbols options)) {} m.tree (m.start table) p →
          m.AdmissibleAt symbols options table p) ∧
    (m.tree.ids.Nodup → ((∃ report, (check symbols options table m).1 = .ok report) ↔
      ∃ a, m.infer symbols options table = .ok a ∧ ∀ n ∈ m.tree.nodes,
        n.Admissible (m.env symbols options) table (n.regionIn a)
          (n.blockArgs.map (Tree.regionIn a)))) ∧
    (∀ report, (check symbols options table m).1 = .ok report →
      m.infer symbols options table = .ok report.annotations) ∧
    ((∀ type ∈ m.types, type.Whole) → ∃ a, m.infer symbols options table = .ok a) := by
  have hexact : (∃ report, (check symbols options table m).1 = .ok report) ↔
      ∃ a, m.infer symbols options table = .ok a ∧
        ∀ p, Reaches (Check.infer (m.env symbols options)) {} m.tree (m.start table) p →
          m.AdmissibleAt symbols options table p := by
    constructor
    · rintro ⟨report, hreport⟩
      have hcheck : check symbols options table m =
          (.ok report, (check symbols options table m).2) :=
        Prod.ext hreport rfl
      exact ⟨report.annotations, infer_of_check hverify hcheck,
        fun p hp => admissibleAt_of_check hfree hverify hcheck hp⟩
    · rintro ⟨a, hinfer, hall⟩
      obtain ⟨reg, s, final, hinfer, -, -⟩ := infer_eq_ok.1 hinfer
      obtain ⟨reg', s', hnode⟩ := exists_yields_node hfree hverify hinfer hall
      obtain ⟨final', hsolve⟩ :=
        (resting_of_yields hnode).exists_solveAt (m.env symbols options) m.info.token
      have hcheck := check_eq_ok.2 ⟨reg', s', final', hnode, hsolve, rfl, rfl⟩
      exact ⟨final'.report, congrArg Prod.fst hcheck⟩
  refine ⟨hexact, fun hids => hexact.trans ?_, fun report hreport => ?_, exists_infer hfree hverify⟩
  · refine exists_congr fun a => and_congr_right fun hinfer => ?_
    obtain ⟨reg, s, final, hyields, hsolve, rfl⟩ := infer_eq_ok.1 hinfer
    rw [admissibleAt_iff hverify hids hyields, annotations_solveAt hsolve]
  · exact infer_of_check hverify (F := (check symbols options table m).2) (Prod.ext hreport rfl)

/-- A function that returns a closure over its block, and a handler under which it is called, with
the block of the caller; the type of the call has the given slot. -/
def handing (slot : RegionSet) : Module where
  info := ⟨12, {}⟩
  name := "unit"
  imports := []
  defs :=
    [.function ⟨4, {}⟩ 1 [] [2] (.fn [] [] (.con "Int" "") (some (.set (.singleton 2))))
      (.lambda ⟨3, {}⟩ 3 [] [] (.con "Int" "") (some (.set (.singleton 2)))
        (.call ⟨2, {}⟩ (.ref ⟨1, {}⟩ 2) [] [] (.con "Int" ""))),
     .function ⟨11, {}⟩ 4 [] [5] (.con "Int" "")
      (.handle ⟨10, {}⟩
        (.call ⟨9, {}⟩ (.ref ⟨5, {}⟩ 1) []
          [.blockArg ⟨8, {}⟩ [] [] (.call ⟨7, {}⟩ (.ref ⟨6, {}⟩ 5) [] [] (.con "Int" ""))]
          (.fn [] [] (.con "Int" "") (some (.set slot))))
        [⟨{}, 6, "Read", []⟩] (.con "Int" ""))]

theorem variableFree_handing (slot : RegionSet) : (handing slot).VariableFree := by
  intro type htype
  have hmem : type ∈ [Ty.fn [] [] (.con "Int" "") (some (.set (.singleton 2))),
    .fn [] [] (.con "Int" "") (some (.set (.singleton 2))), .con "Int" "", .con "Int" "",
    .con "Int" "",
    .fn [] [] (.con "Int" "") (some (.set slot)), .con "Int" ""] := htype
  simp only [List.mem_cons, List.not_mem_nil, or_false] at hmem
  rcases hmem with rfl | rfl | rfl | rfl | rfl | rfl | rfl <;>
    simp [Ty.Ground, Ty.EverySlot, Ty.EverySlots]

/-- The call has to have the block of the caller in its slot, and not that of the callee. -/
theorem acceptance_exact_handing :
    (∃ a, (handing (.singleton 5)).infer {} {} {} = .ok a ∧ a.node? 8 = some (.singleton 5) ∧
      ∀ n ∈ (handing (.singleton 5)).tree.nodes,
        n.Admissible ((handing (.singleton 5)).env {} {}) {} (n.regionIn a)
          (n.blockArgs.map (Tree.regionIn a))) ∧
    ∀ a, (handing (.singleton 2)).infer {} {} {} = .ok a →
      ∃ n ∈ (handing (.singleton 2)).tree.nodes,
      ¬ n.Admissible ((handing (.singleton 2)).env {} {}) {} (n.regionIn a)
        (n.blockArgs.map (Tree.regionIn a)) := by
  obtain ⟨-, hgood, hannotations, -⟩ :=
    @acceptance_exact {} {} {} _ (variableFree_handing (.singleton 5)) rfl
  obtain ⟨-, hbad, -, -⟩ := @acceptance_exact {} {} {} _ (variableFree_handing (.singleton 2)) rfl
  obtain ⟨report, hcheck, hnode⟩ :=
    exists_report (f := fun r => r.annotations.node? 8) (x := some (.singleton 5))
      (F := {}) (show (check {} {} {} (handing (.singleton 5))).1.toOption.map _ = _
        by decide +kernel) (by decide +kernel)
  have hreport := congrArg Prod.fst hcheck
  obtain ⟨a, ha, hall⟩ := (hgood (by decide)).1 ⟨report, hreport⟩
  cases ha.symm.trans (hannotations report hreport)
  refine ⟨⟨report.annotations, ha, hnode, hall⟩, fun a ha => ?_⟩
  by_contra! hall
  obtain ⟨report, hreport⟩ := (hbad (by decide)).2 ⟨a, ha, hall⟩
  have hrejected : (check {} {} {} (handing (.singleton 2))).1.toOption.isNone = true := by
    decide +kernel
  rw [hreport] at hrejected
  cases hrejected

end Module

end RegionCapture
