import RegionCapture.Provenance
import RegionCapture.Proofs.Run
import RegionCapture.Proofs.Slots

/-!
# One step of a search

A search for the provenance of a region meets a node in one of a few ways, whatever number of levels
is left (`Provenance.finding`): the node carries the region and becomes an item, it is passed
through, it is skipped, or it returns a value whose type cannot be read. In the first two cases the
search goes on with the children of the node, one level deeper below an item and on the same level
otherwise. What is proved of searches follows from this by induction over the children
(`Tree.induction_on_children`).
-/

namespace RegionCapture

namespace Tree

/-- The type of a returned value. -/
def returned? : Tree → Option Ty
  | ret _ _ type => some type
  | _ => none

theorem exists_task_of_mem_children {t c : Tree} (hc : c ∈ t.children) :
    ∃ task ∈ t.tasks, task.tree = c := by
  rw [children_eq_present] at hc
  exact List.mem_map.1 (List.mem_filter.1 hc).1

theorem nodes_eq_children {t : Tree} (h : t.isHole = false) :
    t.nodes = t :: t.children.flatMap nodes :=
  walk_eq _ h

/-- What holds of a tree whenever it holds of its children holds of every tree. -/
theorem induction_on_children {P : Tree → Prop} (step : ∀ t, (∀ c ∈ t.children, P c) → P t)
    (t : Tree) : P t := by
  induction t using induction_on_tasks with
  | step t ih =>
    refine step t fun c hc => ?_
    obtain ⟨task, htask, rfl⟩ := exists_task_of_mem_children hc
    exact ih task htask

end Tree

namespace Provenance

variable {p : Provenance} {r : Region} {t : Tree} {levels : Nat}

def Mentioned (p : Provenance) (r : Region) (t : Tree) : Prop :=
  ∃ s, p.annotations.node? t.id = some s ∧ r ∈ s

/-- The node is a function or a block that closes over the region, a reference to the owner of the
region or to a symbol that captures it, or a returned value whose type mentions it. -/
def Carries (p : Provenance) (r : Region) (t : Tree) : Prop :=
  match t with
  | .function .. | .lambda .. | .blockArg .. => p.Mentioned r t
  | .ref _ symbol => symbol = r.owner ∨ ∃ s, p.annotations.symbol? symbol = some s ∧ r ∈ s
  | .ret _ _ type => ∃ free, type.freeRegions p.table = .ok free ∧ r ∈ free
  | _ => False

/-- What a search makes of a node, however many levels are left. -/
inductive Finding (p : Provenance) (r : Region) (t : Tree) : Prop
  /-- it becomes an item, and what is found below it is nested -/
  | item (message : String) (carries : p.Carries r t)
      (trace : ∀ levels, p.trace r (levels + 1) t = do
        let below ← p.traceAll r levels t.children
        return [⟨t.token, message, below⟩])
  /-- it is passed through, and what is found below it stands in its place -/
  | through (mentioned : p.Mentioned r t)
      (trace : ∀ levels, p.trace r (levels + 1) t = p.traceAll r (levels + 1) t.children)
  /-- nothing is found, and if the node mentions the region there is nothing below it -/
  | skipped (childless : p.Mentioned r t → t.children = [])
    (trace : ∀ levels, p.trace r (levels + 1) t = .ok [])
  /-- it returns a value whose type cannot be read -/
  | fault (type : Ty) (returned : t.returned? = some type)
      (unreadable : (∀ free, type.freeRegions p.table ≠ .ok free) ∨
      ∀ text, p.typeText type ≠ .ok text)
      (trace : ∀ levels items, p.trace r (levels + 1) t ≠ .ok items)

/-! ## Searching several trees -/

theorem trace_zero (t : Tree) : p.trace r 0 t = .ok [] := by
  cases t <;> simp [trace]

theorem trace_hole (levels : Nat) : p.trace r levels .hole = .ok [] := by
  simp [trace]

theorem traceAll_append (ts us : List Tree) : p.traceAll r levels (ts ++ us) = do
    let first ← p.traceAll r levels ts
    return first ++ (← p.traceAll r levels us) := by
  induction ts with
  | nil =>
    cases h : p.traceAll r levels us <;> simp [traceAll, h, bind, Except.bind, pure, Except.pure]
  | cons t ts ih =>
    simp only [List.cons_append, traceAll, ih, bind_assoc, pure_bind, List.append_assoc]

theorem traceAll_singleton (t : Tree) : p.traceAll r levels [t] = p.trace r levels t := by
  cases h : p.trace r levels t <;> simp [traceAll, h, bind, Except.bind, pure, Except.pure]

/-- Missing nodes add nothing to a search. -/
theorem traceAll_present (ts : List Tree) :
    p.traceAll r levels (Tree.present ts) = p.traceAll r levels ts := by
  induction ts with
  | nil => rfl
  | cons t ts ih =>
    cases hhole : t.isHole with
    | true =>
      have hskip : Tree.present (t :: ts) = Tree.present ts :=
        List.filter_cons_of_neg (by simp [hhole])
      rw [hskip, ih, Tree.eq_hole hhole]
      cases h : p.traceAll r levels ts <;>
        simp [traceAll, trace_hole, h, bind, Except.bind, pure, Except.pure]
    | false =>
      have hkeep : Tree.present (t :: ts) = t :: Tree.present ts :=
        List.filter_cons_of_pos (by simp [hhole])
      simp only [hkeep, traceAll, ih]

theorem traceAll_present_singleton (t : Tree) :
    p.traceAll r levels (Tree.present [t]) = p.trace r levels t :=
  (traceAll_present [t]).trans (traceAll_singleton t)

theorem traceClauses_eq (cs : List Clause) :
    p.traceClauses r levels cs = p.traceAll r levels (cs.map Clause.body) := by
  induction cs with
  | nil => rfl
  | cons c cs ih =>
    obtain ⟨_, _, _, body⟩ := c
    simp only [traceClauses, List.map_cons, traceAll, ih]

theorem traceHandlers_eq (hs : List Handler) :
    p.traceHandlers r levels hs =
      p.traceAll r levels (hs.flatMap fun h => h.clauses.map Clause.body) := by
  induction hs with
  | nil => rfl
  | cons h hs ih =>
    obtain ⟨_, _, _, clauses⟩ := h
    simp only [traceHandlers, traceClauses_eq, List.flatMap_cons, traceAll_append, ih]

/-! ## One node -/

theorem mentioned_iff : p.Mentioned r t ↔ p.annotations.mentions t.id r = true := by
  simp [Annotations.mentions, Mentioned, Option.any_eq_true]

theorem mentions_iff {info : Anchor} (hinfo : info.id = t.id) :
    p.mentions info r = true ↔ p.Mentioned r t := by
  rw [mentioned_iff, mentions, hinfo]

/-- A node that the search goes below only if its annotation mentions the region. -/
theorem finding_of_passed (info : Anchor) (hinfo : info.id = t.id)
    (htrace : ∀ levels, p.trace r (levels + 1) t =
      if p.mentions info r then p.traceAll r (levels + 1) t.children else .ok []) :
      p.Finding r t := by
  by_cases hmentioned : p.Mentioned r t
  · exact .through hmentioned fun levels => by
      rw [htrace, if_pos ((mentions_iff hinfo).2 hmentioned)]
  · exact .skipped (fun h => absurd h hmentioned) fun levels => by
      rw [htrace, if_neg (mt (mentions_iff hinfo).1 hmentioned)]

/-- A node that becomes an item if its annotation mentions the region. -/
theorem finding_of_closing (info : Anchor) (hinfo : info.id = t.id) (message : String)
    (hcarries : p.Mentioned r t → p.Carries r t)
    (htrace : ∀ levels, p.trace r (levels + 1) t =
      if p.mentions info r then do
        let below ← p.traceAll r levels t.children
        return [⟨t.token, message, below⟩]
      else .ok []) : p.Finding r t := by
  by_cases hmentioned : p.Mentioned r t
  · exact .item message (hcarries hmentioned) fun levels => by
      rw [htrace, if_pos ((mentions_iff hinfo).2 hmentioned)]
  · exact .skipped (fun h => absurd h hmentioned) fun levels => by
      rw [htrace, if_neg (mt (mentions_iff hinfo).1 hmentioned)]

theorem finding_ref (info : Anchor) (symbol : SymbolId) : p.Finding r (.ref info symbol) := by
  by_cases howner : symbol = r.owner
  · exact .item _ (.inl howner) fun levels => by rw [trace, refTrace, if_pos howner]; rfl
  · by_cases hcaptures : (p.annotations.symbol? symbol).any (fun s => s.contains r) = true
    · have hsymbol : ∃ s, p.annotations.symbol? symbol = some s ∧ r ∈ s := by
        simpa [Option.any_eq_true] using hcaptures
      exact .item _ (.inr hsymbol) fun levels => by
        rw [trace, refTrace, if_neg howner, if_pos hcaptures]; rfl
    · exact .skipped (fun _ => rfl) fun levels => by
        rw [trace, refTrace, if_neg howner, if_neg hcaptures]

theorem finding_ret (info : Anchor) (value : Tree) (type : Ty) :
    p.Finding r (.ret info value type) := by
  have hbelow : ∀ levels, p.traceAll r levels (Tree.ret info value type).children =
      p.trace r levels value :=
    fun _ => traceAll_present_singleton value
  cases hfree : type.freeRegions p.table with
  | error f =>
    refine .fault type rfl (.inl fun free h => nomatch hfree.symm.trans h) fun levels items h => ?_
    rw [trace, hfree] at h
    cases h
  | ok free =>
    by_cases hr : r ∈ free
    · have hcontains : free.contains r = true := RegionSet.contains_iff.2 hr
      cases htext : p.typeText type with
      | error f =>
        refine .fault type rfl (.inr fun text h => nomatch htext.symm.trans h)
          fun levels items h => ?_
        rw [trace, hfree] at h
        obtain ⟨below, -, h⟩ := bind_eq_ok.1 ((if_pos hcontains).symm.trans h)
        rw [htext] at h
        cases h
      | ok text =>
        exact .item _ ⟨free, hfree, hr⟩ fun levels => by
          rw [trace, hfree, hbelow, htext]
          exact if_pos hcontains
    · have hcontains : ¬ free.contains r = true := mt RegionSet.contains_iff.1 hr
      refine finding_of_passed info rfl fun levels => ?_
      rw [trace, hfree, hbelow]
      exact if_neg hcontains

/-- A search meets every node that is there in one of these ways. -/
theorem finding (h : t.isHole = false) : p.Finding r t := by
  cases t with
  | hole => cases h
  | ref info symbol => exact finding_ref info symbol
  | ret info value type => exact finding_ret info value type
  | function info | lambda info | blockArg info =>
    exact finding_of_closing info rfl _ id fun levels => by
      rw [trace, Tree.children, traceAll_present_singleton]
      rfl
  | cell info | binding info | assign info =>
    refine finding_of_passed info rfl fun levels => ?_
    rw [trace, Tree.children, traceAll_present_singleton]
  | module info | block info =>
    refine finding_of_passed info rfl fun levels => ?_
    rw [trace, Tree.children, traceAll_present]
  | handle info =>
    refine finding_of_passed info rfl fun levels => ?_
    rw [trace, Tree.children, traceAll_present, traceAll, traceHandlers_eq]
  | call info =>
    refine finding_of_passed info rfl fun levels => ?_
    simp only [trace, Tree.children, traceAll_present, traceAll, traceAll_append, bind_assoc,
      pure_bind, List.append_assoc]
  | cond info =>
    refine finding_of_passed info rfl fun levels => ?_
    rw [trace, Tree.children, traceAll_present, traceAll, traceAll, traceAll_singleton]
    simp only [bind_assoc, pure_bind, List.append_assoc]
  | literal info value => exact .skipped (fun _ => rfl) fun levels => by rw [trace]

end Provenance

end RegionCapture
