import RegionCapture.Proofs.Slots
import RegionCapture.Proofs.Visit

/-!
# Nothing leaks through a settled slot

A function, a function value or a handler has regions that must not leave it (`Tree.Confines`): its
own one and those of its capability parameters, or those of the capabilities it handles. The check
looks at the result type once, in the middle of a run. Main statement
`Module.settled_slot_confined`: a slot of the result type that is known when the run starts, or that
is the slot of a function value inside the node, is known by then, and in the table after the run it
mentions none of the regions that must not leave.
-/

namespace RegionCapture

namespace Tree

/-- The type of the value that leaves a binder. -/
def resultType? : Tree → Option Ty
  | function _ _ _ _ result _ => some result
  | lambda _ _ _ _ result _ _ => some result
  | handle _ _ _ type => some type
  | _ => none

/-- The region is the definition's own or that of one of its capability parameters. -/
def ConfinesOwn (symbols : SymbolTable) (symbol : SymbolId) (blocks : List SymbolId)
    (r : Region) : Prop :=
  r = .ofSymbol symbol ∨ ∃ b ∈ blocks, symbols.kind b = .capability ∧ r = .ofSymbol b

/-- The region must not leave the node. -/
def Confines (symbols : SymbolTable) : Tree → Region → Prop
  | function _ symbol _ blocks _ _, r => ConfinesOwn symbols symbol blocks r
  | lambda _ symbol _ blocks _ _ _, r => ConfinesOwn symbols symbol blocks r
  | handle _ _ handlers _, r => ∃ h ∈ handlers, r = .ofSymbol h.capability
  | _, _ => False

/-- The slot of a function value. -/
def slot? : Tree → Option Term
  | lambda _ _ _ _ _ slot _ => slot
  | _ => none

end Tree

/-- A type that avoids regions has none of them in a known slot. -/
theorem Ty.Avoids.not_mem {t : Table} {type : Ty} {forbidden : RegionSet} {terms : List Term}
    {term : Term} {set : RegionSet} (h : type.Avoids t forbidden) (hslots : type.slots = .ok terms)
    (hterm : term ∈ terms) (hknows : t.Knows term set) : ∀ r ∈ set, r ∉ forbidden := by
  obtain ⟨free, hfree, hno⟩ := h
  have hmem := (Ty.unionKnown_spec ((Ty.freeRegions_eq_ok hslots).1 hfree)).2
  exact fun r hr => hno r ((hmem r).2 ⟨term, hterm, set, hknows, hr⟩)

namespace Check

variable {env : CheckEnv} {s s' : CheckState}

theorem mem_capabilities_add {symbol : SymbolId} {blocks : List SymbolId} {r : Region} :
    r ∈ (capabilities env blocks).add (.ofSymbol symbol) ↔
    Tree.ConfinesOwn env.symbols symbol blocks r := by
  simp [capabilities, Tree.ConfinesOwn, and_assoc, eq_comm (a := r)]

theorem mem_regionsOf {xs : List SymbolId} {r : Region} :
    r ∈ Tree.regionsOf xs ↔ ∃ x ∈ xs, r = .ofSymbol x := by
  simp [Tree.regionsOf, eq_comm (a := r)]

theorem mem_handled {handlers : List Handler} {r : Region} :
    r ∈ Tree.regionsOf (handlers.map Handler.capability) ↔
    ∃ h ∈ handlers, r = .ofSymbol h.capability := by
  rw [mem_regionsOf]
  constructor
  · rintro ⟨x, hx, rfl⟩
    obtain ⟨h, hh, rfl⟩ := List.mem_map.1 hx
    exact ⟨h, hh, rfl⟩
  · rintro ⟨h, hh, rfl⟩
    exact ⟨h.capability, List.mem_map_of_mem hh, rfl⟩

/-- After a function value is matched with its slot, the slot is known and bounds its regions. -/
theorem knows_of_yields_matchSlot {token : Token} {term : Term} {reg : RegionSet} {body : Tree}
    {u : Unit} (h : Yields (matchSlot env token (some term) reg body) s u s') :
    ∃ expected, s'.store.table.Knows term expected ∧ ∀ r ∈ reg, r ∈ expected := by
  rcases (covers_of_yields_matchSlot h).knows_or_open with ⟨expected, hknows⟩ | hopen
  · obtain ⟨hreg, rfl⟩ := (yields_matchSlot_of_knows hknows).1 h
    exact ⟨expected, hknows, hreg⟩
  · obtain ⟨v, rfl, -⟩ := hopen.eq_var
    obtain ⟨store, hsolve, rfl⟩ := yields_solveAt.1 ((yields_matchSlot_of_open hopen).1 h)
    have hsolved := EquationStore.solvedTo_solve hsolve
    -- an equation with a set on one side never stays pending
    have hmem : (⟨.var v, .set reg⟩ : Equation) ∈ (s.store.add (.var v) (.set reg)).pending := by
      simp [EquationStore.add]
    rcases hsolved.settles _ hmem with hpending | hsettled
    · exact absurd (Equation.isStuck_iff.1 (hsolved.stuck _ hpending)).2.2 Table.not_open_set
    · rcases hsettled with heq | ⟨set, hvar, hset⟩
      · cases heq
      · rw [Table.knows_set.1 hset]
        exact ⟨set, hvar, fun r hr => hr⟩

namespace Visit

/-- After the visit of a function value its slot is known and bounds its regions. -/
theorem knows_slot (v : Visit env) {term : Term} (h : v.tree.slot? = some term) :
    ∃ set, v.after.store.table.Knows term set ∧ ∀ r ∈ v.region, r ∈ set := by
  obtain ⟨-, -, s₁, hsettle, hafter⟩ := yields_leave.1 v.left
  cases htree : v.tree with
  | lambda info symbol params blocks result slot body =>
    rw [htree] at h hsettle
    obtain rfl : slot = some term := h
    obtain ⟨s₂, s₃, hmatch, hsolve, -, rfl⟩ := yields_settle_lambda.1 hsettle
    obtain ⟨set, hknows, hbounds⟩ := knows_of_yields_matchSlot hmatch
    exact ⟨set, hafter ▸ (equates_solveAt hsolve).extends_table.knows hknows, hbounds⟩
  | _ => rw [htree] at h; cases h

/-- A visit of a binder leaves none of its regions in a slot of its result type that is known by
then. -/
theorem not_confines (v : Visit env) {type : Ty} {terms : List Term} {term : Term} {set : RegionSet}
    (htype : v.tree.resultType? = some type) (hslots : type.slots = .ok terms)
    (hterm : term ∈ terms) (hknows : v.found.store.table.Knows term set) :
    ∀ r ∈ set, ¬ v.tree.Confines env.symbols r := by
  obtain ⟨-, -, s₁, hsettle, -⟩ := yields_leave.1 v.left
  have hsteps := steps_settle hsettle
  cases htree : v.tree with
  | function info symbol params blocks result body =>
    rw [htree] at htype hsettle hsteps
    cases htype
    obtain ⟨s₂, -, havoid, rfl⟩ := yields_settle_function.1 hsettle
    intro r hr hconf
    exact havoid.not_mem hslots hterm (hsteps.extends_table.knows hknows) r hr
      (mem_capabilities_add.2 hconf)
  | lambda info symbol params blocks result slot body =>
    rw [htree] at htype hsettle hsteps
    cases htype
    obtain ⟨s₂, s₃, -, -, havoid, rfl⟩ := yields_settle_lambda.1 hsettle
    intro r hr hconf
    exact havoid.not_mem hslots hterm (hsteps.extends_table.knows hknows) r hr
      (mem_capabilities_add.2 hconf)
  | handle info body handlers type' =>
    rw [htree] at htype hsettle hsteps
    cases htype
    obtain ⟨-, havoid⟩ := yields_settle_handle.1 hsettle
    rintro r hr ⟨h, hh, rfl⟩
    exact havoid.not_mem hslots hterm (hsteps.extends_table.knows hknows) _ hr
      (mem_handled.2 ⟨h, hh, rfl⟩)
  | _ => rw [htree] at htype; cases htype

/-- The slot of a function value inside the visited node is known when the trees below are
checked. -/
theorem knows_inner_slot (v : Visit env) {c : Task} {l : Tree} {term : Term}
    (hc : c ∈ v.tree.tasks) (hl : l ∈ c.tree.nodes) (hslot : l.slot? = some term) :
    ∃ set, v.found.store.table.Knows term set := by
  obtain ⟨i, w, u, hchild, hwithin, rfl⟩ :=
    v.exists_within_child hc hl fun w hw => w.exists_within (hw ▸ hl)
  obtain ⟨set, hknows, -⟩ := u.knows_slot hslot
  exact ⟨set, hchild.steps_found.extends_table.knows (hwithin.steps.extends_table.knows hknows)⟩

end Visit

end Check

namespace Module

open Check

variable {symbols : SymbolTable} {options : Options} {table F : Table} {m : Module}
  {report : CheckReport}

/-- In an accepted unit no slot of the result type of a function, a function value or a handler
mentions a region that must not leave the node, if the slot is known when the check starts or is the
slot of a function value inside the node. -/
theorem settled_slot_confined (h : check symbols options table m = (.ok report, F)) {n : Tree}
    (hn : n ∈ m.tree.nodes) {type : Ty} (htype : n.resultType? = some type) {terms : List Term}
    (hslots : type.slots = .ok terms) {term : Term} (hterm : term ∈ terms)
    (hsettled : (∃ set, table.Knows term set) ∨
      ∃ c ∈ n.tasks, ∃ l ∈ c.tree.nodes, l.slot? = some term) :
    ∃ set, F.Knows term set ∧ ∀ r ∈ set, ¬ n.Confines symbols r := by
  obtain ⟨v, hv, rfl⟩ := exists_visit h hn
  obtain ⟨set, hknows⟩ : ∃ set, v.found.store.table.Knows term set := by
    rcases hsettled with ⟨set, hstart⟩ | ⟨c, hc, l, hl, hslot⟩
    · exact ⟨set, v.extends_found.knows (hv.extends_before.knows hstart)⟩
    · exact v.knows_inner_slot hc hl hslot
  exact ⟨set, (hv.extends_found h).knows hknows, v.not_confines htype hslots hterm hknows⟩

/-- A function with a capability and a block, which returns a function value that runs the block. -/
def returnsBlock : Tree :=
  .function ⟨4, {}⟩ 1 [] [2, 3] (.fn [] [] (.con "Int" "") (some (.var 1)))
    (.lambda ⟨3, {}⟩ 4 [] [] (.con "Int" "") (some (.var 1))
      (.call ⟨2, {}⟩ (.ref ⟨1, {}⟩ 3) [] [] (.con "Int" "")))

/-- The symbols of `returnsBlock`: the function, the capability, the block, and the function
value. -/
def returnsBlockSymbols : SymbolTable :=
  ⟨[{}, { kind := .capability }, { kind := .blockParam }, { kind := .lambda }]⟩

/-- The returned function value captures the block, which may leave, and not the capability, which
may not. -/
theorem settled_slot_confined_returnsBlock :
    ∃ report, check returnsBlockSymbols {} ⟨[none]⟩ ⟨⟨5, {}⟩, "unit", [returnsBlock], []⟩ =
        (.ok report, ⟨[some (.singleton 3)]⟩) ∧
      returnsBlock.Confines returnsBlockSymbols 2 ∧
      ∃ set, Table.Knows ⟨[some (.singleton 3)]⟩ (.var 1) set ∧
        ∀ r ∈ set, ¬ returnsBlock.Confines returnsBlockSymbols r := by
  have hcheck : check returnsBlockSymbols {} ⟨[none]⟩ ⟨⟨5, {}⟩, "unit", [returnsBlock], []⟩ =
      (.ok _, ⟨[some (.singleton 3)]⟩) := rfl
  refine ⟨_, hcheck, .inr ⟨2, by simp, rfl, rfl⟩, ?_⟩
  refine settled_slot_confined hcheck
    (List.mem_cons_of_mem _ List.mem_cons_self) rfl rfl List.mem_cons_self (.inr ?_)
  exact ⟨_, List.mem_cons_self, _, List.mem_cons_self, rfl⟩

end Module

end RegionCapture
