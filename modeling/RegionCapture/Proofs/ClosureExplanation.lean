import RegionCapture.Proofs.Origin
import RegionCapture.Proofs.Retention

/-!
# Rejected function values are explained

A search for the provenance of a region enters a node whose annotation mentions the region, and
either makes an item of it or goes through all trees below it
(`Provenance.exists_item_or_includes`). Where no symbol is bound twice, a reference captures in the
end what it captured when it was checked. So from a body that captures the region a search can
always go on to a tree that captures it, until it meets something that it makes an item of
(`Check.Visit.Seen.trace_ne_nil`). Only an assignment leads nowhere: it captures what its symbol
does, and no item is made for that. Main statement `Module.rejected_closure_explained`.
-/

namespace RegionCapture

/-- The slot and the body of a function value. -/
def Tree.closure? : Tree → Option (Term × Tree)
  | lambda _ _ _ _ _ (some term) body => some (term, body)
  | _ => none

theorem Tree.tasks_of_closure {t body : Tree} {term : Term} (h : t.closure? = some (term, body)) :
    t.tasks = [body.task] ∧ t.used? = none := by
  cases t with
  | lambda info symbol params blocks result slot body =>
    cases slot with
    | none => cases h
    | some term => cases h; exact ⟨rfl, rfl⟩
  | _ => cases h

namespace Provenance

variable {q : Provenance} {r : Region} {levels : Nat} {items items' : Trace}

/-! ## Searches go through all trees -/

/-- The trees have traces, and these are parts of the given one. -/
def Includes (q : Provenance) (r : Region) (levels : Nat) (items : Trace) (ts : List Tree) : Prop :=
  ∀ t ∈ ts, ∃ below, q.trace r levels t = .ok below ∧ below ⊆ items

theorem includes_singleton {t : Tree} (h : q.trace r levels t = .ok items) :
    q.Includes r levels items [t] := by
  intro u hu
  rw [List.mem_singleton.1 hu]
  exact ⟨items, h, List.Subset.refl items⟩

theorem Includes.append {ts us : List Tree} (h : q.Includes r levels items ts)
    (h' : q.Includes r levels items' us) :
    q.Includes r levels (items ++ items') (ts ++ us) := by
  intro t ht
  rcases List.mem_append.1 ht with ht | ht
  · obtain ⟨below, hbelow, hsub⟩ := h t ht
    exact ⟨below, hbelow, List.subset_append_of_subset_left _ hsub⟩
  · obtain ⟨below, hbelow, hsub⟩ := h' t ht
    exact ⟨below, hbelow, List.subset_append_of_subset_right _ hsub⟩

theorem includes_traceAll {ts : List Tree} (h : q.traceAll r levels ts = .ok items) :
    q.Includes r levels items ts := by
  induction ts generalizing items with
  | nil => exact fun _ ht => absurd ht List.not_mem_nil
  | cons t ts ih =>
    rw [traceAll] at h
    obtain ⟨first, hfirst, h⟩ := bind_eq_ok.1 h
    obtain ⟨rest, hrest, h⟩ := bind_eq_ok.1 h
    cases h
    exact (includes_singleton hfirst).append (ih hrest)

/-- A missing tree has an empty trace, so the trees that are there are enough. -/
theorem Includes.tasks {t : Tree} (h : q.Includes r levels items t.children) :
    q.Includes r levels items (t.tasks.map Task.tree) := by
  intro c hc
  cases hhole : c.isHole with
  | true =>
    rw [Tree.eq_hole hhole]
    exact ⟨[], trace_hole levels, List.nil_subset items⟩
  | false =>
    refine h c ?_
    rw [Tree.children_eq_present]
    exact List.mem_filter.2 ⟨hc, by simp [hhole]⟩

/-- A search makes an item of a node that mentions the region, or goes through the trees below it.
No definition is gone through. -/
theorem exists_item_or_includes {t : Tree} (hmentions : q.annotations.mentions t.id r = true)
    (h : q.trace r (levels + 1) t = .ok items) :
    (∃ item, items = [item]) ∨
      (t.definition? = none ∧ q.Includes r (levels + 1) items (t.tasks.map Task.tree)) := by
  cases hdef : t.definition? with
  | some x =>
    cases t with
    | function info | lambda info =>
      rw [trace, if_pos ((mentions_iff rfl).2 (mentioned_iff.2 hmentions))] at h
      obtain ⟨below, -, h⟩ := bind_eq_ok.1 h
      exact .inl ⟨_, (Except.ok.inj h).symm⟩
    | _ => cases hdef
  | none =>
    cases hhole : t.isHole with
    | true =>
      rw [Tree.eq_hole hhole]
      exact .inr ⟨rfl, fun _ ht => absurd ht List.not_mem_nil⟩
    | false =>
      cases q.finding (r := r) hhole with
      | item message carries trace =>
        rw [trace] at h
        obtain ⟨below, -, h⟩ := bind_eq_ok.1 h
        exact .inl ⟨_, (Except.ok.inj h).symm⟩
      | through mentioned trace =>
        rw [trace] at h
        exact .inr ⟨rfl, (includes_traceAll h).tasks⟩
      | skipped childless trace =>
        refine .inr ⟨rfl, Includes.tasks ?_⟩
        rw [childless (mentioned_iff.2 hmentions)]
        exact fun _ ht => absurd ht List.not_mem_nil
      | fault type returned unreadable trace => exact absurd h (trace levels items)

/-- A reference to a symbol that captures the region is an item. -/
theorem refTrace_ne_nil {x : SymbolId} (h : r ∈ q.annotations.symbolRegion x) (info : Anchor) :
    q.refTrace r info x ≠ [] := by
  unfold refTrace
  split
  · exact List.cons_ne_nil _ _
  · have hany : (q.annotations.symbol? x).any (fun s => s.contains r) = true := by
      rw [Annotations.symbolRegion] at h
      cases hsymbol : q.annotations.symbol? x with
      | none =>
        rw [hsymbol] at h
        exact absurd h (RegionSet.not_mem_empty r)
      | some s =>
        rw [hsymbol] at h
        exact RegionSet.contains_iff.2 h
    rw [if_pos hany]
    exact List.cons_ne_nil _ _

/-- If every region that is explained at all has an item, there are at least as many items as
regions. -/
theorem explained_each {root : Tree} {rs : RegionSet} (h : q.explainEach root rs = .ok items)
    (hitems : ∀ r ∈ rs, ∀ below, q.explain r root = .ok below → below ≠ []) :
    (∀ r ∈ rs, ∃ below, q.explain r root = .ok below ∧ below ≠ []) ∧ rs.size ≤ items.length := by
  suffices hall : ∀ (elems : List Region) (traces : List Trace),
      elems.mapM (fun r => q.explain r root) = .ok traces →
      (∀ r ∈ elems, ∀ below, q.explain r root = .ok below → below ≠ []) →
      (∀ r ∈ elems, ∃ below, q.explain r root = .ok below ∧ below ≠ []) ∧
      elems.length ≤ traces.flatten.length by
    obtain ⟨traces, htraces, h⟩ := bind_eq_ok.1 h
    cases h
    exact hall rs.elems traces htraces hitems
  intro elems
  induction elems with
  | nil => exact fun _ _ _ => ⟨fun _ hr => absurd hr List.not_mem_nil, Nat.zero_le _⟩
  | cons r elems ih =>
    intro traces htraces hitems
    rw [List.mapM_cons] at htraces
    obtain ⟨first, hfirst, htraces⟩ := bind_eq_ok.1 htraces
    obtain ⟨rest, hrest, htraces⟩ := bind_eq_ok.1 htraces
    cases htraces
    obtain ⟨hown, hothers⟩ := List.forall_mem_cons.1 hitems
    obtain ⟨hexplained, hlength⟩ := ih rest hrest hothers
    have hne : first ≠ [] := hown first hfirst
    refine ⟨List.forall_mem_cons.2 ⟨⟨first, hfirst, hne⟩, hexplained⟩, ?_⟩
    have hpos : 0 < first.length := List.length_pos_iff.2 hne
    rw [List.flatten_cons, List.length_append, List.length_cons]
    omega

end Provenance

namespace Check.Visit

variable {env : CheckEnv} {v w : Visit env} {q : Provenance} {r : Region} {i levels : Nat}

/-- A search sees a visited tree as the visit left it: with its annotations, and with what symbols
captured by then. -/
structure Seen (v : Visit env) (q : Provenance) : Prop where
  ids : v.tree.ids.Nodup
  binders : v.tree.allBinders.Nodup
  blank : v.before.annotations.Blank v.tree.allBinders
  nodes : ∀ id ∈ v.tree.ids, q.annotations.node? id = v.after.annotations.node? id
  keeps : v.after.annotations.Keeps q.annotations

theorem Seen.child (h : v.Seen q) (hchild : v.Child i w)
    (hdef : v.tree.definition? = none) : w.Seen q where
  ids := h.ids.sublist hchild.sublist.1
  binders := h.binders.sublist hchild.sublist.2
  blank := hchild.blank h.binders h.blank
  nodes id hid := by
    rw [h.nodes id (hchild.sublist.1.subset hid)]
    exact hchild.steps.sameOutside.nodes id fun hout => hout h.ids hid
  keeps := ((hchild.keeps h.binders h.blank).trans
    (v.keeps_left h.binders h.blank hdef)).trans h.keeps

theorem Seen.mentions (h : v.Seen q) (hr : r ∈ v.region) :
    q.annotations.mentions v.tree.id r = true := by
  rw [Annotations.mentions, h.nodes _ (Tree.id_mem_ids v.present), v.node?_after]
  exact RegionSet.contains_iff.2 hr

/-- What a node that names no symbol captures comes from a tree below it. -/
theorem exists_child_of_mem_region (v : Visit env) (hunused : v.tree.used? = none)
    (hr : r ∈ v.region) :
    ∃ i w, v.Child i w ∧ ∃ c ∈ v.tree.tasks, w.tree = c.tree ∧ r ∈ w.region := by
  obtain ⟨hregion, -⟩ := yields_leave.1 v.left
  rw [hregion, Tree.region_of_unused hunused] at hr
  obtain ⟨reg, hreg, hr⟩ := mem_unionAll.1 (RegionSet.mem_sdiff.1 hr).1
  obtain ⟨i, hi⟩ := List.mem_iff_getElem?.1 hreg
  have hlt : i < v.tree.tasks.length := by
    rw [← length_tasks v.below]
    exact (List.getElem?_eq_some_iff.1 hi).1
  have hc := List.getElem?_eq_getElem hlt
  cases hhole : (v.tree.tasks[i]).tree.isHole with
  | true =>
    rw [v.regs_of_hole hc hhole] at hi
    cases hi
    exact absurd hr (RegionSet.not_mem_empty r)
  | false =>
    obtain ⟨w, hchild, htree, hw⟩ := v.exists_child hc hhole
    rw [hi] at hw
    cases hw
    exact ⟨i, w, hchild, _, List.getElem_mem hlt, htree, hr⟩

/-- If nothing is assigned in a tree, a search finds how the tree captures what it captures. -/
theorem Seen.trace_ne_nil (h : v.Seen q) (hassign : ∀ n ∈ v.tree.nodes, n.kind? ≠ some .assign)
    (hr : r ∈ v.region) {trace : Trace}
    (htrace : q.trace r (levels + 1) v.tree = .ok trace) : trace ≠ [] := by
  suffices hall : ∀ (t : Tree) (v : Visit env),
      v.tree = t → v.Seen q → (∀ n ∈ t.nodes, n.kind? ≠ some .assign) →
      r ∈ v.region → ∀ trace, q.trace r (levels + 1) t = .ok trace → trace ≠ [] from
    hall v.tree v rfl h hassign hr trace htrace
  intro t
  induction t using Tree.induction_on_tasks with
  | step t ih =>
    rintro v rfl h hassign hr trace htrace
    rcases Provenance.exists_item_or_includes (h.mentions hr) htrace with ⟨item, rfl⟩ |
      ⟨hdef, hincludes⟩
    · exact List.cons_ne_nil _ _
    · cases hused : v.tree.used? with
      | some x =>
        cases htree : v.tree with
        | ref info symbol =>
          -- the symbol captures the region until the reference is left, and from then on
          obtain ⟨hregion, -⟩ := yields_leave.1 v.left
          rw [hregion, htree] at hr
          have hcaptures := h.keeps symbol r (v.keeps_left h.binders h.blank hdef symbol r hr)
          rw [htree, Provenance.trace] at htrace
          cases htrace
          exact Provenance.refTrace_ne_nil hcaptures info
        | assign info symbol value =>
          exact absurd rfl (htree ▸ hassign v.tree (Tree.mem_nodes.2 ⟨v.present, .inl rfl⟩))
        | _ => simp [htree, Tree.used?] at hused
      | none =>
        obtain ⟨i, w, hchild, c, hc, htree, hr⟩ := v.exists_child_of_mem_region hused hr
        obtain ⟨below, hbelow, hsub⟩ := hincludes c.tree (List.mem_map.2 ⟨c, hc, rfl⟩)
        have hinner : ∀ n ∈ c.tree.nodes, n.kind? ≠ some .assign := fun n hn =>
          hassign n (Tree.mem_nodes.2 ⟨v.present, .inr ⟨c, hc, hn⟩⟩)
        have hne := ih c hc w htree (h.child hchild hdef) hinner hr below hbelow
        rintro rfl
        exact hne (List.subset_nil.1 hsub)

end Check.Visit

namespace Check

variable {env : CheckEnv} {scope : Scope} {t body : Tree} {s s' : CheckState} {p : Arrival}
  {d : Diagnostic} {regs : List RegionSet} {reg : RegionSet} {r : Region}

/-! ## Where a function value is refused -/

/-- The code tells that a function value with a known slot was refused. -/
theorem Resting.refused_of_settle (hs : Resting s) (h : Rejects (settle env regs reg t) s d s')
    (hcode : d.code = .notAllowed) :
    ∃ term body expected, t.closure? = some (term, body) ∧
      Refused env t.token term reg body s d expected := by
  cases hs.raisedAt_of_settle env.options h with
  | call _ clash => cases clash.code_eq.symm.trans hcode
  | definition _ plain => cases plain.code_eq.symm.trans hcode
  | handler _ plain => cases plain.code_eq.symm.trans hcode
  | scope _ plain => cases plain.code_eq.symm.trans hcode
  | closure slot plain =>
    obtain ⟨term, hslot⟩ := slot
    cases t with
    | lambda info symbol params blocks result slot body =>
      obtain rfl : slot = some term := hslot
      rcases rejects_bind.1 h with hmatch | ⟨⟨⟩, s₁, hmatch, h⟩
      · obtain ⟨_, heq, ⟨⟨expected, hrefused⟩, -⟩ | ⟨v, hopen, hsolve⟩⟩ := rejects_matchSlot hmatch
        · cases heq
          exact ⟨term, body, expected, rfl, hrefused⟩
        · exact absurd hsolve (hs.not_rejects_add hopen)
      · rcases rejects_bind.1 h with hescape | ⟨_, _, -, hannotate⟩
        · rcases rejects_definitionEscape hescape with hsolve | ⟨-, hescapes⟩
          · exact absurd hsolve (resting_matchSlot hs hmatch).not_rejects_solveAt
          · cases hescapes.code_eq.symm.trans hcode
        · exact absurd hannotate not_rejects_modify
    | _ => cases hslot

/-- When a run has come to a node with one tree below it, a search sees this tree as its visit left
it. -/
theorem Reaches.exists_seen (hp : Reaches (node env) scope t s p) (hids : t.ids.Nodup)
    (hnodup : t.allBinders.Nodup) (hblank : s.annotations.Blank t.allBinders)
    (hone : p.node.tasks = [body.task]) (hr : r ∈ unionAll p.regs) :
    ∃ w : Visit env, w.tree = body ∧ r ∈ w.region ∧ w.Seen (provenanceIn env p.marked) := by
  obtain ⟨s₀, hbinders, hfresh, hbelow⟩ := hp.exists_blank hnodup hblank
  have hfirst : Yields (tasks env (p.node.inner p.scope) []) (entered p.scope p.node s₀) []
      (entered p.scope p.node s₀) :=
    yields_tasks_nil.2 ⟨rfl, rfl⟩
  have hsplit : p.node.tasks = [] ++ body.task :: [] := hone
  have hbody := blank_resumed hp.present hbinders hsplit hfresh hfirst
  rw [hone] at hbelow
  obtain ⟨reg, s₁, regs', hnode, hrest, hregs⟩ := yields_tasks_cons.1 hbelow
  obtain ⟨rfl, rfl⟩ := yields_tasks_nil.1 hrest
  rw [hregs, unionAll_singleton] at hr
  have hhole : body.isHole = false := by
    cases hhole : body.isHole with
    | false => rfl
    | true =>
      rw [show body.task.tree = .hole from Tree.eq_hole hhole] at hnode
      rw [(yields_hole.1 hnode).1] at hr
      exact absurd hr (RegionSet.not_mem_empty r)
  obtain ⟨w, -, htree, hbefore, rfl, hafter⟩ := Visit.exists_of_yields hhole hnode
  have hsub : body.ids.Sublist p.node.ids ∧ body.allBinders.Sublist p.node.allBinders := by
    rw [Tree.ids_eq hp.present, Tree.allBinders_eq hp.present, hone]
    simp only [List.flatMap_cons, List.flatMap_nil, List.append_nil]
    exact ⟨(List.Sublist.refl _).cons _, List.sublist_append_right _ _⟩
  refine ⟨w, htree, hr, ?_, ?_, ?_, fun id _ => ?_, Annotations.keeps_of_symbol? fun x => ?_⟩
  · exact htree ▸ hids.sublist (hsub.1.trans hp.ids_sublist)
  · exact htree ▸ hbinders.sublist hsub.2
  · rw [htree, hbefore]
    exact hbody.subset (List.subset_append_left _ _)
  · rw [hafter]
    exact p.node.node?_markScope p.state.annotations id
  · rw [hafter]
    exact p.node.symbol?_markScope p.state.annotations x

end Check

namespace Module

open Check

variable {symbols : SymbolTable} {options : Options} {table F : Table} {m : Module} {d : Diagnostic}

/-- Where a unit is rejected because of a function value, the run has come to the function value,
whose slot lacks some of its regions, and stops there. -/
theorem exists_refused (h : check symbols options table m = (.error (.rejected d), F))
    (hcode : d.code = .notAllowed) :
    ∃ p term body expected, Reaches (node (m.env symbols options)) {} m.tree (m.start table) p ∧
      ((leave (m.env symbols options) p.scope p.regs p.node).outcome p.state).1 =
        .error (.rejected d) ∧
      p.node.closure? = some (term, body) ∧
      Refused (m.env symbols options) p.node.token term p.region body p.marked d expected := by
  obtain ⟨s, -, hnode | ⟨reg, s₁, -, hsolve⟩⟩ := check_eq_rejected h
  · obtain ⟨p, hp, hleave⟩ := (outline_node _).exists_failing hnode
    rcases rejects_leave hleave with hsettle | ⟨-, hplain⟩
    · have hresting : Resting p.marked := resting_arrival hp
      obtain ⟨term, body, expected, hclosure, hrefused⟩ := hresting.refused_of_settle hsettle hcode
      exact ⟨p, term, body, expected, hp, congrArg Prod.fst hleave, hclosure, hrefused⟩
    · cases hplain.code_eq.symm.trans hcode
  · cases (clash_of_rejects_solveAt hsolve).1.code_eq.symm.trans hcode

/-- If a unit whose nodes have different numbers and in which no symbol is bound twice is rejected
because of a function value, while explanations are wanted and may have a level, then the check
stops in leaving the function value, whose known slot lacks some of its regions, and unless
something is assigned in its body, each of these regions has a trace that is not empty, and the
diagnostic has at least one item for each. -/
theorem rejected_closure_explained (h : check symbols options table m = (.error (.rejected d), F))
    (hcode : d.code = .notAllowed) (hids : m.tree.ids.Nodup) (honce : m.BoundOnce)
    (hexplains : options.explains = true) (hdepth : 1 ≤ options.explain.maxDepth) :
    ∃ p term body expected, Reaches (node (m.env symbols options)) {} m.tree (m.start table) p ∧
      ((leave (m.env symbols options) p.scope p.regs p.node).outcome p.state).1 =
        .error (.rejected d) ∧
      p.node.closure? = some (term, body) ∧
      Refused (m.env symbols options) p.node.token term p.region body p.marked d expected ∧
      ((∀ n ∈ body.nodes, n.kind? ≠ some .assign) →
        (∀ r ∈ p.region \ expected, ∃ trace,
          (provenanceIn (m.env symbols options) p.marked).explain r body = .ok trace ∧ trace ≠ []) ∧
        (p.region \ expected).size ≤ d.trace.length) := by
  obtain ⟨p, term, body, expected, hp, hstops, hclosure, hrefused⟩ := exists_refused h hcode
  obtain ⟨hone, hunused⟩ := Tree.tasks_of_closure hclosure
  refine ⟨p, term, body, expected, hp, hstops, hclosure, hrefused, fun hassign => ?_⟩
  refine Provenance.explained_each (hrefused.explained hexplains) fun r hr below hbelow => ?_
  have hbody : r ∈ unionAll p.regs := by
    have hregion := (RegionSet.mem_sdiff.1 hr).1
    rw [Arrival.region, Tree.region_of_unused hunused] at hregion
    exact (RegionSet.mem_sdiff.1 hregion).1
  obtain ⟨w, rfl, hw, hseen⟩ := hp.exists_seen hids honce.tree honce.blank_start hone hbody
  obtain ⟨levels, hlevels⟩ : ∃ levels, options.explain.maxDepth.toNat = levels + 1 :=
    ⟨options.explain.maxDepth.toNat - 1, by omega⟩
  have htrace : (provenanceIn (m.env symbols options) p.marked).trace r (levels + 1) w.tree =
      .ok below := by
    rw [← hlevels]
    exact hbelow
  exact hseen.trace_ne_nil hassign hw htrace

/-- A function value, allowed to capture nothing, that calls a function which runs a block and
passes it a cell. -/
def overreaching : Module where
  info := ⟨10, {}⟩
  name := "unit"
  imports := []
  defs := [.function ⟨9, {}⟩ 1 [] [2] (.con "Int" "") (.block ⟨8, {}⟩ [
    .cell ⟨2, {}⟩ 3 (.literal ⟨1, {}⟩ "0"),
    .function ⟨4, {}⟩ 4 [] [] (.con "Int" "") (.ref ⟨3, {}⟩ 2),
    .lambda ⟨7, {}⟩ 5 [] [] (.con "Int" "") (some (.set ∅))
      (.ret ⟨11, {}⟩ (.call ⟨12, {}⟩ (.ref ⟨5, {}⟩ 4) [.ref ⟨6, {}⟩ 3] [] (.con "Int" ""))
        (.con "Int" ""))])]

/-- The code and the number of items with which a unit is rejected. -/
def rejection : Except Failure CheckReport → Option (Code × Nat)
  | .error (.rejected d) => some (d.code, d.trace.length)
  | _ => none

/-- Block and cell are both refused, and each has its item, although only one level is allowed. -/
theorem rejected_closure_explained_overreaching :
    let options : Options := { explain := { maxDepth := 1 } }
    overreaching.tree.ids.Nodup ∧ overreaching.BoundOnce ∧ options.explains = true ∧
    ∃ d, check {} options ⟨[]⟩ overreaching = (.error (.rejected d), ⟨[]⟩) ∧ d.code = .notAllowed ∧
    d.trace.length = 2 ∧
      ∃ (p : Arrival) (term : Term) (body : Tree) (expected : RegionSet), p.node.closure? =
      some (term, body) ∧
        Refused (overreaching.env {} options) p.node.token term p.region body p.marked d expected ∧
        (∀ r ∈ p.region \ expected, ∃ trace,
          (provenanceIn (overreaching.env {} options) p.marked).explain r body = .ok trace ∧
          trace ≠ []) ∧
        (p.region \ expected).size ≤ 2 := by
  intro options
  have hids : overreaching.tree.ids.Nodup := by decide
  have honce : overreaching.BoundOnce := by
    unfold BoundOnce
    decide
  refine ⟨hids, honce, rfl, ?_⟩
  have hrejection : rejection (check {} options ⟨[]⟩ overreaching).1 = some (.notAllowed, 2) := by
    decide +kernel
  have hfinal : (check {} options ⟨[]⟩ overreaching).2 = ⟨[]⟩ := by decide +kernel
  rcases hcheck : check {} options ⟨[]⟩ overreaching with ⟨(d | f) | report, F⟩
  · rw [hcheck] at hrejection hfinal
    obtain ⟨hcode, hlength⟩ := Prod.mk.inj (Option.some.inj hrejection)
    cases hfinal
    obtain ⟨p, term, body, expected, hp, -, hclosure, hrefused, hexplained⟩ :=
      rejected_closure_explained hcheck hcode hids honce rfl (by decide)
    have hnone : ∀ n ∈ overreaching.tree.nodes, ∀ k ∈ n.nodes, k.kind? ≠ some .assign := by decide
    have hbody : ∀ n ∈ body.nodes, n.kind? ≠ some .assign := fun n hn =>
      hnone p.node hp.mem_nodes n
        (Tree.mem_nodes.2 ⟨hp.present,
          .inr ⟨body.task, by simp [(Tree.tasks_of_closure hclosure).1], hn⟩⟩)
    obtain ⟨heach, hsize⟩ := hexplained hbody
    exact ⟨d, rfl, hcode, hlength, p, term, body, expected, hclosure, hrefused, heach,
      hlength ▸ hsize⟩
  · rw [hcheck] at hrejection
    cases hrejection
  · rw [hcheck] at hrejection
    cases hrejection

end Module

end RegionCapture
