import RegionCapture.Proofs.Readable

/-!
# The depth limit of a search

The items of a trace stand on level one, the items right below them on level two, and so on. Cutting
a trace at a level takes away what is nested deeper and leaves all else as it is (`Trace.cut`). A
search counts a level only where it makes an item of a node, so with fewer levels it finds the trace
that it finds with more of them, cut (`Provenance.trace_cut`). Main statement
`Provenance.explain_cut`.
-/

namespace RegionCapture

/-! ## Cutting a trace -/

mutual
/-- The item without what is nested deeper than `levels` levels below it. -/
def TraceItem.cut (levels : Nat) : TraceItem → TraceItem
  | ⟨token, message, children⟩ => ⟨token, message, cutTrace levels children⟩

/-- The items of the first `levels` levels. -/
def cutTrace : (levels : Nat) → List TraceItem → List TraceItem
  | 0, _ => []
  | _ + 1, [] => []
  | levels + 1, i :: is => i.cut levels :: cutTrace (levels + 1) is
end

mutual
/-- The number of levels of an item, its own included. -/
def TraceItem.depth : TraceItem → Nat
  | ⟨_, _, children⟩ => traceDepth children + 1

/-- The number of levels of items. -/
def traceDepth : List TraceItem → Nat
  | [] => 0
  | i :: is => max i.depth (traceDepth is)
end

namespace Trace

/-- The trace without what is nested deeper than the given level. -/
def cut (levels : Nat) (t : Trace) : Trace := cutTrace levels t

def depth (t : Trace) : Nat := traceDepth t

variable {levels : Nat}

@[simp] theorem cut_zero (t : Trace) : cut 0 t = [] := by
  cases t <;> rfl

@[simp] theorem cut_nil (levels : Nat) : cut levels [] = [] := by
  cases levels <;> rfl

theorem cut_cons (i : TraceItem) (t : Trace) :
    cut (levels + 1) (i :: t) = i.cut levels :: cut (levels + 1) t := rfl

theorem cut_append (t u : Trace) : cut levels (t ++ u) = cut levels t ++ cut levels u := by
  cases levels with
  | zero => simp
  | succ levels =>
    induction t with
    | nil => simp
    | cons i t ih => rw [List.cons_append, cut_cons, cut_cons, ih, List.cons_append]

end Trace

mutual
theorem TraceItem.depth_cut_le (levels : Nat) : ∀ i : TraceItem, (i.cut levels).depth ≤ levels + 1
  | ⟨_, _, children⟩ => by
    simp only [TraceItem.cut, TraceItem.depth]
    exact Nat.succ_le_succ (traceDepth_cut_le levels children)

theorem traceDepth_cut_le :
    ∀ (levels : Nat) (is : List TraceItem), traceDepth (cutTrace levels is) ≤ levels
  | 0, is => by
    cases is <;> exact Nat.le_refl 0
  | levels + 1, [] => Nat.zero_le _
  | levels + 1, i :: is => by
    simp only [cutTrace, traceDepth]
    exact Nat.max_le.2 ⟨i.depth_cut_le levels, traceDepth_cut_le (levels + 1) is⟩
end

namespace Provenance

variable {p : Provenance} {r : Region} {levels levels' : Nat}

/-! ## Searching with fewer levels -/

theorem traceAll_cut {ts : List Tree} {items : Trace}
    (h :
      ∀ t ∈ ts, ∀ below, p.trace r levels' t = .ok below →
        p.trace r levels t = .ok (below.cut levels))
    (htrace : p.traceAll r levels' ts = .ok items) :
    p.traceAll r levels ts = .ok (items.cut levels) := by
  induction ts generalizing items with
  | nil =>
    cases htrace
    rw [traceAll, Trace.cut_nil]
  | cons t ts ih =>
    obtain ⟨hfirst, hrest⟩ := List.forall_mem_cons.1 h
    rw [traceAll] at htrace
    obtain ⟨first, htfirst, htrace⟩ := bind_eq_ok.1 htrace
    obtain ⟨rest, htrest, htrace⟩ := bind_eq_ok.1 htrace
    cases htrace
    rw [traceAll, hfirst first htfirst, Trace.cut_append]
    exact bind_eq_ok.2 ⟨_, rfl, bind_eq_ok.2 ⟨_, ih hrest htrest, rfl⟩⟩

/-- With fewer levels a search finds the same trace, cut. -/
theorem trace_cut {t : Tree} {items : Trace} (hle : levels ≤ levels')
    (h : p.trace r levels' t = .ok items) :
    p.trace r levels t = .ok (items.cut levels) := by
  induction t using Tree.induction_on_children generalizing levels levels' items with
  | step t ih =>
    cases hhole : t.isHole with
    | true =>
      rw [Tree.eq_hole hhole, trace_hole] at h ⊢
      cases h
      rw [Trace.cut_nil]
    | false =>
      match levels, levels', hle with
      | 0, _, _ => rw [trace_zero, Trace.cut_zero]
      | levels + 1, levels' + 1, hle =>
        -- an item nests what is found with one level less on both sides; a node passed through
        -- takes no level
        cases p.finding (r := r) hhole with
        | item message carries trace =>
          rw [trace] at h ⊢
          obtain ⟨below, hbelow, h⟩ := bind_eq_ok.1 h
          cases h
          have hcut := traceAll_cut (fun c hc _ => ih c hc (Nat.le_of_succ_le_succ hle)) hbelow
          exact bind_eq_ok.2 ⟨_, hcut, rfl⟩
        | through mentioned trace =>
          rw [trace] at h ⊢
          exact traceAll_cut (fun c hc _ => ih c hc hle) h
        | skipped childless trace =>
          rw [trace] at h ⊢
          cases h
          rw [Trace.cut_nil]
        | fault type returned unreadable trace => exact absurd h (trace levels' items)

/-- The same search with another limit on how deep items may nest. -/
def limited (p : Provenance) (m : Int) : Provenance := { p with maxDepth := m }

theorem explain_limited (m : Int) (root : Tree) :
    (p.limited m).explain r root = p.trace r m.toNat root := by
  unfold explain
  -- the recursion reads everything but the limit, so both sides are the same recursion
  delta trace
  rfl

/-- If the types of the values that a tree returns can be read, there is a trace, whatever the
limit; and with a smaller limit a trace is cut at the level of that limit, where nothing is left if
it is not positive. -/
theorem explain_cut (p : Provenance) (r : Region) (root : Tree) {m m' : Int} (h : m ≤ m') :
    (root.ReturnsReadable p.table → ∃ trace, (p.limited m').explain r root = .ok trace) ∧
    ∀ trace, (p.limited m').explain r root = .ok trace →
      (p.limited m).explain r root = .ok (trace.cut m.toNat) ∧
      (trace.cut m.toNat).depth ≤ m.toNat := by
  constructor
  · intro hread
    rw [explain_limited]
    exact exists_trace hread m'.toNat
  · intro trace htrace
    rw [explain_limited] at htrace ⊢
    have hle : m.toNat ≤ m'.toNat := by omega
    exact ⟨trace_cut hle htrace, traceDepth_cut_le m.toNat trace⟩

/-- The body of a function that returns a function value: the value refers to the owner of a region,
once directly and once from inside another function value. -/
def returnsClosure : Tree :=
  .ret ⟨7, {}⟩ (.lambda ⟨6, {}⟩ 2 [] [] (.con "Int" "") none (.block ⟨5, {}⟩ [
      .ref ⟨1, {}⟩ 7,
      .block ⟨4, {}⟩ [.lambda ⟨3, {}⟩ 3 [] [] (.con "Int" "") none (.ref ⟨2, {}⟩ 7)]]))
    (.fn [] [] (.con "Int" "") (some (.set (.singleton 7))))

/-- A search in which every node of the body mentions the region. -/
def seeingAll (m : Int) : Provenance where
  symbols := {}
  annotations := [1, 2, 3, 4, 5, 6, 7].foldl (fun a id => a.annotateNode id (.singleton 7)) {}
  table := {}
  maxDepth := m

theorem returnsReadable_returnsClosure : returnsClosure.ReturnsReadable {} := by
  intro n hn type htype
  have hreturned : returnsClosure.nodes.filterMap Tree.returned? =
      [.fn [] [] (.con "Int" "") (some (.set (.singleton 7)))] := rfl
  have hmem := List.mem_filterMap.2 ⟨n, hn, htype⟩
  rw [hreturned] at hmem
  rw [List.mem_singleton.1 hmem]
  exact ⟨by simp [Ty.EverySlot, Ty.EverySlots, Table.covers_set], by simp [Ty.Whole]⟩

/-- All items are four levels deep. With two levels the returned value and the function value are
left: the blocks that are passed through take no level. -/
theorem explain_cut_returnsClosure :
    (2 : Int) ≤ 16 ∧ returnsClosure.ReturnsReadable {} ∧
    ∃ trace, (seeingAll 16).explain 7 returnsClosure = .ok trace ∧ trace.size = 5 ∧
      trace.depth = 4 ∧
      (seeingAll 2).explain 7 returnsClosure = .ok (trace.cut 2) ∧ (trace.cut 2).size = 2 := by
  obtain ⟨hexists, hcut⟩ :=
    explain_cut (seeingAll 0) 7 returnsClosure (show (2 : Int) ≤ 16 by decide)
  obtain ⟨trace, htrace⟩ := hexists returnsReadable_returnsClosure
  have hnumbers : ((seeingAll 16).explain 7 returnsClosure).toOption.map
      (fun trace => (trace.size, trace.depth, (trace.cut 2).size)) = some (5, 4, 2) := by
        decide +kernel
  rw [show (seeingAll 16).explain 7 returnsClosure = .ok trace from htrace] at hnumbers
  obtain ⟨hsize, hrest⟩ := Prod.mk.inj (Option.some.inj hnumbers)
  obtain ⟨hdepth, hleft⟩ := Prod.mk.inj hrest
  exact ⟨by decide, returnsReadable_returnsClosure, trace, htrace, hsize, hdepth,
    (hcut trace htrace).1, hleft⟩

end Provenance

end RegionCapture
