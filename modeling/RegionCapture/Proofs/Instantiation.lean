import Mathlib.Data.List.Nodup
import RegionCapture.Proofs.Slots
import RegionCapture.Proofs.Visit

/-!
# Slots at call sites

A call of a known function gets the result type of the function with the regions of its block
parameters replaced by those of the blocks passed (`CallSignature.Replaced`). The replacement is
made when the call is checked, in the slots that are known by then; a slot of the callee that is
still open is equated as it is. Main statement `Module.call_slot_replaced_iff`: a slot of a call is
in the end the replaced slot of the callee iff the callee's slot was known when the call was
checked, or has nothing to replace. A call that is checked before its callee can therefore be left
with the callee's own block parameters (`Module.call_slot_not_replaced`).
-/

namespace RegionCapture

/-! ## Replacing block parameters -/

/-- The regions of a node by its annotation; a missing node has none. -/
def Tree.regionIn (a : Annotations) (t : Tree) : RegionSet :=
  if t.isHole then ∅ else (a.node? t.id).getD ∅

namespace CallSignature

variable {sig : CallSignature} {regs : List RegionSet} {r : Region} {reg s o : RegionSet}

/-- The second set is the first with the region of every block parameter replaced by the regions
passed for it. -/
def Replaced (sig : CallSignature) (regs : List RegionSet) (s o : RegionSet) : Prop :=
  ∀ r, r ∈ o ↔ (r ∈ s ∧ ∀ p ∈ sig.blocks.zip regs, r ≠ .ofSymbol p.1) ∨
    ∃ p ∈ sig.blocks.zip regs, Region.ofSymbol p.1 ∈ s ∧ r ∈ p.2

theorem passing_eq (sig : CallSignature) (regs : List RegionSet) :
    sig.passing regs = ((sig.blocks.zip regs).map fun p => (Region.ofSymbol p.1, p.2)).reverse := by
  have h : ∀ (ps : List (SymbolId × RegionSet)) (acc : RegionSubst),
      ps.foldl (fun s p => s.bind (.ofSymbol p.1) p.2) acc =
        (ps.map fun p => (Region.ofSymbol p.1, p.2)).reverse ++ acc := by
    intro ps
    induction ps with
    | nil => intro acc; rfl
    | cons p ps ih => intro acc; simp [RegionSubst.bind]
  exact (h _ []).trans (List.append_nil _)

theorem mem_passing : (r, reg) ∈ sig.passing regs ↔ (r, reg) ∈ sig.blocks.zip regs := by
  simp [passing_eq, Region.ofSymbol]

theorem lookup_passing_eq_none : (sig.passing regs).lookup r = none ↔
    ∀ p ∈ sig.blocks.zip regs, r ≠ .ofSymbol p.1 := by
  simp only [List.lookup_eq_none_iff, bne_iff_ne]
  exact ⟨fun h p hp => h p (mem_passing.2 hp), fun h p hp => h p (mem_passing.1 hp)⟩

/-- With different parameters each one has one set passed for it. -/
theorem passed_unique {reg' : RegionSet} (h : sig.blocks.Nodup)
    (hp : (r, reg) ∈ sig.blocks.zip regs) (hp' : (r, reg') ∈ sig.blocks.zip regs) : reg = reg' := by
  obtain ⟨i, hi, hget⟩ := List.mem_iff_getElem.1 hp
  obtain ⟨j, hj, hget'⟩ := List.mem_iff_getElem.1 hp'
  simp only [List.getElem_zip, Prod.mk.injEq] at hget hget'
  have hij : i = j := (h.getElem_inj_iff).1 (hget.1.trans hget'.1.symm)
  subst hij
  exact hget.2.symm.trans hget'.2

/-- A region is in the image of another one if it stands for itself or is passed for a parameter. -/
theorem mem_image_passing (h : sig.blocks.Nodup) {q : Region} : r ∈ (sig.passing regs).image q ↔
    (r = q ∧ ∀ p ∈ sig.blocks.zip regs, q ≠ .ofSymbol p.1) ∨
      ∃ p ∈ sig.blocks.zip regs, Region.ofSymbol p.1 = q ∧ r ∈ p.2 := by
  cases hlookup : (sig.passing regs).lookup q with
  | none =>
    have hnone := lookup_passing_eq_none.1 hlookup
    have hno : ¬ ∃ p ∈ sig.blocks.zip regs, Region.ofSymbol p.1 = q ∧ r ∈ p.2 :=
      fun ⟨p, hp, hq, _⟩ => hnone p hp hq.symm
    simp only [RegionSubst.image, hlookup, Option.getD_none, RegionSet.mem_singleton, hno, or_false]
    exact ⟨fun hr => ⟨hr, hnone⟩, fun hr => hr.1⟩
  | some reg =>
    obtain ⟨l₁, l₂, hsplit, -⟩ := List.lookup_eq_some_iff.1 hlookup
    have hin : (q, reg) ∈ sig.blocks.zip regs := mem_passing.1 (by rw [hsplit]; simp)
    simp only [RegionSubst.image, hlookup, Option.getD_some]
    constructor
    · exact fun hr => .inr ⟨(q, reg), hin, rfl, hr⟩
    · rintro (⟨-, hself⟩ | ⟨⟨q', reg'⟩, hp, rfl, hr⟩)
      · exact absurd rfl (hself _ hin)
      · rwa [passed_unique h hin hp]

/-- The replaced set is what substituting the blocks passed makes of the set. -/
theorem replaced_iff (h : sig.blocks.Nodup) :
    sig.Replaced regs s o ↔ o = (sig.passing regs).onSet s := by
  have hmem : ∀ r, r ∈ (sig.passing regs).onSet s ↔
      (r ∈ s ∧ ∀ p ∈ sig.blocks.zip regs, r ≠ .ofSymbol p.1) ∨
        ∃ p ∈ sig.blocks.zip regs, Region.ofSymbol p.1 ∈ s ∧ r ∈ p.2 := by
    intro r
    rw [RegionSubst.mem_onSet]
    constructor
    · rintro ⟨q, hq, hr⟩
      rcases (mem_image_passing h).1 hr with ⟨rfl, hself⟩ | ⟨p, hp, rfl, hpassed⟩
      · exact .inl ⟨hq, hself⟩
      · exact .inr ⟨p, hp, hq, hpassed⟩
    · rintro (⟨hr, hself⟩ | ⟨p, hp, hq, hr⟩)
      · exact ⟨r, hr, (mem_image_passing h).2 (.inl ⟨rfl, hself⟩)⟩
      · exact ⟨_, hq, (mem_image_passing h).2 (.inr ⟨p, hp, rfl, hr⟩)⟩
  constructor
  · exact fun hrep => RegionSet.ext_mem fun r => (hrep r).trans (hmem r).symm
  · rintro rfl
    exact hmem

end CallSignature

/-! ## The visit of a call -/

namespace Check.Visit

variable {env : CheckEnv} {v : Visit env} {info : Anchor} {callee : Tree}
  {args blockArgs : List Tree} {type : Ty} {sig : CallSignature}

/-- The regions that a call found for the blocks it passes. -/
def blockRegions (v : Visit env) (args : List Tree) : List RegionSet :=
  v.regs.drop (args.length + 1)

theorem length_blockRegions (hcall : v.tree = .call info callee args blockArgs type) :
    (v.blockRegions args).length = blockArgs.length := by
  have hlen := length_tasks v.below
  rw [hcall] at hlen
  simp only [Tree.tasks, List.length_cons, List.length_map, List.length_append] at hlen
  simp only [blockRegions, List.length_drop, hlen]
  omega

/-- A call goes through if its callee's result can be substituted; it leaves the equations between
its slots and those of the callee, as the callee's are known by then. -/
theorem substitutes (hcall : v.tree = .call info callee args blockArgs type)
    (hsig : calleeSignature env callee = some sig)
    (hpresent : (type.isAbsent || sig.result.isAbsent) = false) :
    (∃ result, sig.result.subst v.found.store.table (sig.passing (v.blockRegions args)) =
      .ok result) ∧
    ∀ e ∈ type.pairs sig.result,
      (e.substituted (sig.passing (v.blockRegions args)) v.found.store.table).Covered
        v.found.store.table ∧
      Ensures v.after (e.substituted (sig.passing (v.blockRegions args)) v.found.store.table) := by
  obtain ⟨-, -, s₁, hsettle, hafter⟩ := yields_leave.1 v.left
  rw [hcall, yields_settle_call hsig, yields_instantiate hpresent] at hsettle
  obtain ⟨result, hsubst, hsolve⟩ := hsettle
  refine ⟨⟨result, hsubst⟩, fun e he => ?_⟩
  have hmem : e.substituted (sig.passing (v.blockRegions args)) v.found.store.table ∈
      (v.found.store.unify type result).pending := by
    refine List.mem_append_right _ ?_
    rw [Ty.pairs_subst type hsubst]
    exact List.mem_map_of_mem he
  constructor
  · obtain ⟨store, hstore, -⟩ := yields_solveAt.1 hsolve
    exact (EquationStore.solvedTo_solve hstore).covers _ hmem
  · rw [hafter]
    exact ((equates_solveAt hsolve).steps Tree.hole.own).lasts (.inl hmem)

end Check.Visit

namespace Module

open Check

variable {symbols : SymbolTable} {options : Options} {table F : Table} {m : Module}
  {report : CheckReport} {v : Visit (m.env symbols options)} {info : Anchor} {callee : Tree}
  {args blockArgs : List Tree} {type : Ty} {sig : CallSignature} {as bs : List Term}
  {sa sb : RegionSet}

/-- The regions that a visit found below its node are those of the report. -/
theorem Visits.regs_eq (hv : m.Visits symbols options table v)
    (h : check symbols options table m = (.ok report, F)) (hids : m.tree.ids.Nodup) :
    v.regs = v.tree.tasks.map fun c => c.tree.regionIn report.annotations := by
  refine List.ext_getElem? fun i => ?_
  rw [List.getElem?_map]
  cases hc : v.tree.tasks[i]? with
  | none =>
    rw [List.getElem?_eq_none_iff.2]
    · rfl
    · rw [length_tasks v.below]
      exact List.getElem?_eq_none_iff.1 hc
  | some c =>
    rw [Option.map_some]
    cases hhole : c.tree.isHole with
    | true =>
      rw [v.regs_of_hole hc hhole]
      simp [Tree.regionIn, hhole]
    | false =>
      obtain ⟨w, hchild, htree, hregion⟩ := v.exists_child hc hhole
      have hnode := (hv.child hchild).node?_report h hids
      rw [htree] at hnode
      rw [hregion]
      simp [Tree.regionIn, hhole, hnode]

theorem Visits.blockRegions_eq (hv : m.Visits symbols options table v)
    (h : check symbols options table m = (.ok report, F)) (hids : m.tree.ids.Nodup)
    (hcall : v.tree = .call info callee args blockArgs type) :
    v.blockRegions args = blockArgs.map (Tree.regionIn report.annotations) := by
  rw [Visit.blockRegions, hv.regs_eq h hids, hcall]
  simp [Tree.tasks, Tree.task, Function.comp_def]

/-- The equation between a slot of a call and the slot of the callee, as it was added. -/
theorem Visits.settled_or_stuck_pair (hv : m.Visits symbols options table v)
    (h : check symbols options table m = (.ok report, F))
    (hcall : v.tree = .call info callee args blockArgs type)
    (hsig : calleeSignature (m.env symbols options) callee = some sig) {e : Equation}
    (he : e ∈ type.pairs sig.result) :
    (e.substituted (sig.passing (v.blockRegions args)) v.found.store.table).Settled F ∨
      (e.substituted (sig.passing (v.blockRegions args)) v.found.store.table).isStuck F = true :=
  hv.settled_or_stuck h ((Visit.substitutes hcall hsig (Ty.present_of_mem_pairs he)).2 e he).2

/-- Equations that are settled or stuck are between equal sets where both sides are known. -/
theorem eq_of_settled_or_stuck {e : Equation} (h : e.Settled F ∨ e.isStuck F = true)
    (hl : F.Knows e.left sa) (hr : F.Knows e.right sb) : sa = sb := by
  rcases h with (heq | ⟨s, hl', hr'⟩) | hstuck
  · exact hl.unique (heq ▸ hr)
  · exact (hl.unique hl').trans (hr'.unique hr)
  · exact absurd (Equation.isStuck_iff.1 hstuck).2.1 hl.not_open

/-- A slot of a call is the callee's slot, replaced if that one was known at the call and as it is
if not. -/
theorem Visits.call_slot_eq (hv : m.Visits symbols options table v)
    (h : check symbols options table m = (.ok report, F))
    (hcall : v.tree = .call info callee args blockArgs type)
    (hsig : calleeSignature (m.env symbols options) callee = some sig) {e : Equation}
    (he : e ∈ type.pairs sig.result) (hsa : F.Knows e.left sa) (hsb : F.Knows e.right sb) :
    ((∃ s, v.found.store.table.Knows e.right s) ∧
      sa = (sig.passing (v.blockRegions args)).onSet sb) ∨
      (v.found.store.table.Open e.right ∧ sa = sb) := by
  have hend := hv.settled_or_stuck_pair h hcall hsig he
  have hext := hv.extends_found h
  rcases (hext.covers_iff.1 hsb.covers).knows_or_open with ⟨s, hs⟩ | hopen
  · have hleft : F.Knows (e.substituted
        (sig.passing (v.blockRegions args)) v.found.store.table).left sa := by
      rwa [Equation.left_substituted]
    have hright := hext.knows
      (Equation.knows_substituted (s := sig.passing (v.blockRegions args)) hs)
    rw [hsb.unique (hext.knows hs)]
    exact .inl ⟨⟨s, hs⟩, eq_of_settled_or_stuck hend hleft hright⟩
  · -- an open slot is added as it is, and what resolves it later is never replaced
    rw [Equation.substituted_of_open hopen] at hend
    exact .inr ⟨hopen, eq_of_settled_or_stuck hend hsa hsb⟩

/-- In an accepted unit every call of a known function is visited. Where a slot of the call and the
slot of the callee's result that corresponds to it are known in the end, the first is the second
with the block parameters replaced iff the callee's slot was known when the call was checked, or
replacing changes nothing. -/
theorem call_slot_replaced_iff (h : check symbols options table m = (.ok report, F))
    (hids : m.tree.ids.Nodup) {place : Anchor} {symbol : SymbolId}
    (hn : .call info (.ref place symbol) args blockArgs type ∈ m.tree.nodes)
    (hsig : m.signatures[symbol]? = some sig) (hblocks : sig.blocks.Nodup)
    (hshape : type.SameShape sig.result) (has : type.slots = .ok as)
    (hbs : sig.result.slots = .ok bs) :
    (∃ v, m.Visits symbols options table v ∧
      v.tree = .call info (.ref place symbol) args blockArgs type) ∧
    ∀ v, m.Visits symbols options table v →
      v.tree = .call info (.ref place symbol) args blockArgs type →
      ∀ (i : Nat) a b sa sb, as[i]? = some a → bs[i]? = some b → F.Knows a sa → F.Knows b sb →
        (sig.Replaced (blockArgs.map (Tree.regionIn report.annotations)) sb sa ↔
          (∃ s, v.found.store.table.Knows b s) ∨
            sig.Replaced (blockArgs.map (Tree.regionIn report.annotations)) sb sb) := by
  refine ⟨exists_visit h hn, fun v hv hcall i a b sa sb ha hb hsa hsb => ?_⟩
  have hslot := hv.call_slot_eq h hcall (show calleeSignature _ (.ref place symbol) = some sig
    from hsig)
    (Ty.mem_pairs_of_slots hshape has hbs ha hb) hsa hsb
  rw [hv.blockRegions_eq h hids hcall] at hslot
  rw [CallSignature.replaced_iff hblocks, CallSignature.replaced_iff hblocks]
  rcases hslot with ⟨hknown, hsa⟩ | ⟨hopen, rfl⟩
  · exact iff_of_true hsa (.inl hknown)
  · exact ⟨.inr, fun hor => hor.resolve_left fun ⟨s, hs⟩ => hs.not_open hopen⟩

/-- The type of a function value with the slot of a variable. -/
def closure (v : RegionVar) : Ty := .fn [] [] (.con "Int" "") (some (.var v))

/-- A function that makes a function value out of its block. -/
def maker : Tree :=
  .function ⟨10, {}⟩ 2 [] [3] (closure 2)
    (.lambda ⟨9, {}⟩ 4 [] [] (.con "Int" "") (some (.var 2))
      (.call ⟨8, {}⟩ (.ref ⟨7, {}⟩ 3) [] [] (.con "Int" "")))

/-- The call of the maker with a block that runs the caller's own block. -/
def makerCall : Tree :=
  .call ⟨5, {}⟩ (.ref ⟨1, {}⟩ 2) []
    [.blockArg ⟨4, {}⟩ [] [] (.call ⟨3, {}⟩ (.ref ⟨2, {}⟩ 5) [] [] (.con "Int" ""))] (closure 1)

/-- The unit with the maker and its caller in the given order. -/
def makerUnit (defs : List Tree) : Module := ⟨⟨11, {}⟩, "unit", defs, []⟩

def makerCaller : Tree := .function ⟨6, {}⟩ 1 [] [5] (.con "Int" "") makerCall

/-- The block passed to the maker captures the caller's own block. -/
theorem replaced_makerCall_iff {a : Annotations} (h : a.node? 4 = some (.singleton 5))
    {o : RegionSet} :
    CallSignature.Replaced ⟨[3], closure 2⟩
      ([.blockArg ⟨4, {}⟩ [] [] (.call ⟨3, {}⟩ (.ref ⟨2, {}⟩ 5) [] [] (.con "Int" ""))].map
        (Tree.regionIn a))
      (.singleton 3) o ↔ o = .singleton 5 := by
  have hregion : Tree.regionIn a
      (.blockArg ⟨4, {}⟩ [] [] (.call ⟨3, {}⟩ (.ref ⟨2, {}⟩ 5) [] [] (.con "Int" ""))) =
      .singleton 5 := by
    simp [Tree.regionIn, Tree.isHole, Tree.head?, Tree.id, h]
  rw [CallSignature.replaced_iff (by decide), List.map_singleton, hregion]
  rfl

/-- After its callee, the call gets the caller's block for the callee's: the callee's slot was known
by then. -/
theorem call_slot_replaced_iff_calleeFirst :
    ∃ report, check {} {} ⟨[none, none]⟩ (makerUnit [maker, makerCaller]) =
        (.ok report, ⟨[some (.singleton 5), some (.singleton 3)]⟩) ∧
      ∃ v, (makerUnit [maker, makerCaller]).Visits {} {} ⟨[none, none]⟩ v ∧ v.tree = makerCall ∧
        ∃ s, v.found.store.table.Knows (.var 2) s := by
  obtain ⟨report, hcheck, hnode⟩ :=
    exists_report (f := fun r => r.annotations.node? 4) (x := some (.singleton 5))
      (F := ⟨[some (.singleton 5), some (.singleton 3)]⟩)
      (show (check {} {} ⟨[none, none]⟩ (makerUnit [maker, makerCaller])).1.toOption.map _ = _
        by decide +kernel)
      (by decide +kernel)
  have hmem : makerCall ∈ (makerUnit [maker, makerCaller]).tree.nodes :=
    List.mem_of_getElem? (i := 6) rfl
  have hsig : (makerUnit [maker, makerCaller]).signatures[2]? = some ⟨[3], closure 2⟩ := rfl
  have hshape : (closure 1).SameShape (closure 2) := by simp [closure, Ty.SameShape]
  obtain ⟨⟨v, hv, htree⟩, hall⟩ :=
    call_slot_replaced_iff hcheck (by decide) hmem hsig (by decide) hshape rfl rfl
  have hiff := hall v hv htree 0 (.var 1) (.var 2) (.singleton 5) (.singleton 3) rfl rfl rfl rfl
  rw [replaced_makerCall_iff hnode, replaced_makerCall_iff hnode] at hiff
  exact ⟨report, hcheck, v, hv, htree, (hiff.1 rfl).resolve_right (by decide)⟩

/-- Before its callee, the same call is left with the callee's own block parameter. -/
theorem call_slot_not_replaced :
    ∃ report, check {} {} ⟨[none, none]⟩ (makerUnit [makerCaller, maker]) =
        (.ok report, ⟨[some (.singleton 3), some (.singleton 3)]⟩) ∧
      (makerUnit [makerCaller, maker]).tree.ids.Nodup ∧
      makerCall ∈ (makerUnit [makerCaller, maker]).tree.nodes ∧
      (makerUnit [makerCaller, maker]).signatures[2]? = some ⟨[3], closure 2⟩ ∧
      (closure 1).SameShape (closure 2) ∧ (closure 1).slots = .ok [.var 1] ∧
      (closure 2).slots = .ok [.var 2] ∧
      ¬ CallSignature.Replaced ⟨[3], closure 2⟩
        ([.blockArg ⟨4, {}⟩ [] [] (.call ⟨3, {}⟩ (.ref ⟨2, {}⟩ 5) [] [] (.con "Int" ""))].map
          (Tree.regionIn report.annotations)) (.singleton 3) (.singleton 3) := by
  obtain ⟨report, hcheck, hnode⟩ :=
    exists_report (f := fun r => r.annotations.node? 4) (x := some (.singleton 5))
      (F := ⟨[some (.singleton 3), some (.singleton 3)]⟩)
      (show (check {} {} ⟨[none, none]⟩ (makerUnit [makerCaller, maker])).1.toOption.map _ = _
        by decide +kernel)
      (by decide +kernel)
  have hshape : (closure 1).SameShape (closure 2) := by simp [closure, Ty.SameShape]
  refine ⟨report, hcheck, by decide, List.mem_of_getElem? (i := 2) rfl, rfl, hshape, rfl, rfl, ?_⟩
  rw [replaced_makerCall_iff hnode]
  decide

end Module

end RegionCapture
