import RegionCapture.Proofs.Instantiation
import RegionCapture.Proofs.Judgement

/-!
# Where a run has come to

A traversal enters a node, goes through the trees below it, and leaves the node (`Check.Outline`);
the check is one. A run arrives at a node once the trees below it are done (`Check.Reaches`),
whatever happens afterwards. A run that fails has arrived at some node and fails in leaving it
(`Check.Outline.exists_failing`), and a run that succeeds has arrived at every node
(`Check.Outline.exists_arrival`).
-/

namespace RegionCapture

namespace Tree

theorem id_mem_ids {t : Tree} (h : t.isHole = false) : t.id ∈ t.ids := by
  rw [ids_eq h]
  exact List.mem_cons_self

theorem regionIn_eq_of_node? {t : Tree} {a b : Annotations}
    (h : t.isHole = false → a.node? t.id = b.node? t.id) :
    t.regionIn a = t.regionIn b := by
  unfold regionIn
  cases hhole : t.isHole with
  | true => rfl
  | false => rw [h hhole]

end Tree

namespace Check

/-- A node that a run has come to, with the scope around it, the regions found below it, and the
state by then. -/
structure Arrival where
  scope : Scope
  node : Tree
  regs : List RegionSet
  state : CheckState

namespace Arrival

/-- The state in which the node is settled: its scope is recorded. -/
def marked (p : Arrival) : CheckState :=
  { p.state with annotations := p.node.markScope p.state.annotations }

def region (p : Arrival) : RegionSet := p.node.region p.regs p.marked.annotations

end Arrival

section
variable (visit : Scope → Tree → Check RegionSet)

/-- Goes through the trees below a node, each resumption being annotated before the body of its
clause. -/
def tasksBy (scope : Scope) (ts : List Task) : Check (List RegionSet) :=
  ts.mapM fun c => do
    annotate (resumedWith scope c.resume)
    visit scope c.tree

/-- The run of a traversal on a tree, from a state, has come to a node. -/
inductive Reaches : Scope → Tree → CheckState → Arrival → Prop
  | here {scope : Scope} {t : Tree} {s s₁ : CheckState} {regs : List RegionSet}
    (present : t.isHole = false)
    (below : Yields (tasksBy visit (t.inner scope) t.tasks) (entered scope t s) regs s₁) :
    Reaches scope t s ⟨scope, t, regs, s₁⟩
  | deeper {scope : Scope} {t : Tree} {s s₁ : CheckState} {regs : List RegionSet}
    {ts us : List Task} {c : Task} {p : Arrival} (present : t.isHole = false)
    (split : t.tasks = ts ++ c :: us)
    (earlier : Yields (tasksBy visit (t.inner scope) ts) (entered scope t s) regs s₁)
    (inside : Reaches (t.inner scope) c.tree (resumed (t.inner scope) c.resume s₁) p) :
    Reaches scope t s p

/-- Leaving a node annotates the node with the regions it gives, and no other node. -/
def Marks (leave : Scope → List RegionSet → Tree → Check RegionSet) : Prop :=
  ∀ {scope regs t s reg s'}, Yields (leave scope regs t) s reg s' →
    ∀ id, s'.annotations.node? id = if t.id = id then some reg else s.annotations.node? id

/-- The traversal finds nothing at a missing node, and otherwise enters the node, goes below, and
leaves it. -/
structure Outline (leave : Scope → List RegionSet → Tree → Check RegionSet) : Prop where
  hole : ∀ scope, visit scope .hole = pure ∅
  node : ∀ scope t, t.isHole = false → visit scope t = (do
    annotate (t.entry scope)
    let regs ← tasksBy visit (t.inner scope) t.tasks
    leave scope regs t)

end

variable {visit : Scope → Tree → Check RegionSet}
  {leave : Scope → List RegionSet → Tree → Check RegionSet} {scope : Scope} {t n : Tree}
  {s s' s₁ : CheckState} {ts us : List Task} {c : Task} {regs : List RegionSet} {reg : RegionSet}
  {p : Arrival} {e : Failure}

/-! ## Trees in order -/

theorem tasks_eq_tasksBy (env : CheckEnv) (scope : Scope) (ts : List Task) :
    tasks env scope ts = tasksBy (node env) scope ts := by
  unfold tasksBy
  induction ts with
  | nil => rfl
  | cons c ts ih =>
    rw [List.mapM_cons, ← ih, bind_assoc]
    rfl

theorem outline_node (env : CheckEnv) : Outline (node env) (Check.leave env) := by
  refine ⟨fun scope => by rw [node], fun scope t h => ?_⟩
  rw [node_eq env scope h, tasks_eq_tasksBy]

theorem yields_tasksBy_nil : Yields (tasksBy visit scope []) s regs s' ↔ regs = [] ∧ s = s' := by
  rw [show tasksBy visit scope [] = pure [] from rfl, yields_pure]
  exact and_congr_left' eq_comm

theorem outcome_tasksBy_cons (visit : Scope → Tree → Check RegionSet) (scope : Scope) (c : Task)
    (ts : List Task) (s : CheckState) : (tasksBy visit scope (c :: ts)).outcome s =
      (do let reg ← visit scope c.tree; return reg :: (← tasksBy visit scope ts) :
        Check (List RegionSet)).outcome
        (resumed scope c.resume s) := by
  rw [tasksBy, List.mapM_cons, bind_assoc]
  rfl

theorem yields_tasksBy_cons : Yields (tasksBy visit scope (c :: ts)) s regs s' ↔
    ∃ reg s₁ regs', Yields (visit scope c.tree) (resumed scope c.resume s) reg s₁ ∧
      Yields (tasksBy visit scope ts) s₁ regs' s' ∧ regs = reg :: regs' := by
  rw [Yields, outcome_tasksBy_cons, ← Yields]
  simp only [yields_bind, yields_pure]
  constructor
  · rintro ⟨reg, s₁, hvisit, regs', _, hrest, rfl, rfl⟩
    exact ⟨reg, s₁, regs', hvisit, hrest, rfl⟩
  · rintro ⟨reg, s₁, regs', hvisit, hrest, rfl⟩
    exact ⟨reg, s₁, hvisit, regs', _, hrest, rfl, rfl⟩

theorem yields_tasksBy_append : Yields (tasksBy visit scope (ts ++ us)) s regs s' ↔
    ∃ regs₁ s₁ regs₂, Yields (tasksBy visit scope ts) s regs₁ s₁ ∧
      Yields (tasksBy visit scope us) s₁ regs₂ s' ∧
      regs = regs₁ ++ regs₂ := by
  rw [tasksBy, List.mapM_append]
  simp only [yields_bind, yields_pure]
  constructor
  · rintro ⟨regs₁, s₁, hts, regs₂, _, hus, rfl, rfl⟩
    exact ⟨regs₁, s₁, regs₂, hts, hus, rfl⟩
  · rintro ⟨regs₁, s₁, regs₂, hts, hus, rfl⟩
    exact ⟨regs₁, s₁, hts, regs₂, _, hus, rfl, rfl⟩

theorem length_tasksBy (h : Yields (tasksBy visit scope ts) s regs s') :
    regs.length = ts.length := by
  induction ts generalizing s regs with
  | nil => rw [(yields_tasksBy_nil.1 h).1]; rfl
  | cons c ts ih =>
    obtain ⟨reg, s₁, regs', -, hrest, rfl⟩ := yields_tasksBy_cons.1 h
    simp [ih hrest]

/-- Trees that fail in order fail at one of them, after those before it succeed. -/
theorem exists_failing_task (h : (tasksBy visit scope ts).outcome s = (.error e, s')) :
    ∃ ts₁ c ts₂ regs s₁, ts = ts₁ ++ c :: ts₂ ∧ Yields (tasksBy visit scope ts₁) s regs s₁ ∧
      (visit scope c.tree).outcome (resumed scope c.resume s₁) = (.error e, s') := by
  induction ts generalizing s with
  | nil => cases h
  | cons c ts ih =>
    rw [outcome_tasksBy_cons, outcome_bind] at h
    rcases hvisit : (visit scope c.tree).outcome (resumed scope c.resume s) with ⟨e' | reg, s₂⟩
    · rw [hvisit] at h
      cases h
      exact ⟨[], c, ts, [], s, rfl, yields_tasksBy_nil.2 ⟨rfl, rfl⟩, hvisit⟩
    · rw [hvisit] at h
      simp only [outcome_bind] at h
      have hrest : (tasksBy visit scope ts).outcome s₂ = (.error e, s') := by
        rcases hts : (tasksBy visit scope ts).outcome s₂ with ⟨e' | regs, s₃⟩
        · rw [hts] at h
          exact h
        · rw [hts] at h
          cases h
      obtain ⟨ts₁, d, ts₂, regs, s₁, rfl, hearlier, hfails⟩ := ih hrest
      exact ⟨c :: ts₁, d, ts₂, reg :: regs, s₁, rfl,
        yields_tasksBy_cons.2 ⟨reg, s₂, regs, hvisit, hearlier, rfl⟩, hfails⟩

/-! ## Arrivals -/

theorem Reaches.mem_nodes (h : Reaches visit scope t s p) : p.node ∈ t.nodes := by
  induction h with
  | here present _ => exact Tree.mem_nodes.2 ⟨present, .inl rfl⟩
  | deeper present split _ _ ih => exact Tree.mem_nodes.2 ⟨present, .inr ⟨_, by simp [split], ih⟩⟩

theorem Reaches.present (h : Reaches visit scope t s p) : p.node.isHole = false := by
  induction h with
  | here present _ => exact present
  | deeper _ _ _ _ ih => exact ih

theorem Reaches.length_regs (h : Reaches visit scope t s p) :
    p.regs.length = p.node.tasks.length := by
  induction h with
  | here _ below => exact length_tasksBy below
  | deeper _ _ _ _ ih => exact ih

section
variable {visit' : Scope → Tree → Check RegionSet}

theorem Yields.tasksBy_mono
    (hsim :
      ∀ c ∈ ts, ∀ {s reg s'}, Yields (visit scope c.tree) s reg s' →
        Yields (visit' scope c.tree) s reg s')
    (h : Yields (tasksBy visit scope ts) s regs s') :
    Yields (tasksBy visit' scope ts) s regs s' := by
  induction ts generalizing s regs with
  | nil => exact yields_tasksBy_nil.2 (yields_tasksBy_nil.1 h)
  | cons c ts ih =>
    obtain ⟨reg, s₁, regs', hvisit, hrest, hregs⟩ := yields_tasksBy_cons.1 h
    exact yields_tasksBy_cons.2 ⟨reg, s₁, regs', hsim c List.mem_cons_self hvisit,
      ih (fun d hd => hsim d (List.mem_cons_of_mem c hd)) hrest, hregs⟩

/-- A traversal that does what another one does arrives wherever the other one arrives. -/
theorem Reaches.mono (hsim : ∀ {scope t s reg s'},
      Yields (visit scope t) s reg s' → Yields (visit' scope t) s reg s')
    (h : Reaches visit scope t s p) : Reaches visit' scope t s p := by
  induction h with
  | here present below => exact .here present (below.tasksBy_mono fun _ _ => hsim)
  | deeper present split earlier _ ih =>
    exact .deeper present split (earlier.tasksBy_mono fun _ _ => hsim) ih

theorem tasksBy_congr (h : ∀ c ∈ ts, visit scope c.tree = visit' scope c.tree) :
    tasksBy visit scope ts = tasksBy visit' scope ts := by
  induction ts with
  | nil => rfl
  | cons c ts ih =>
    have hrest := ih fun d hd => h d (List.mem_cons_of_mem c hd)
    unfold tasksBy at hrest ⊢
    rw [List.mapM_cons, List.mapM_cons, hrest, h c List.mem_cons_self]

end

/-- What visiting each of the trees keeps, visiting all of them keeps. -/
theorem keeps_tasksBy {I : CheckState → Prop}
    (hresumed : ∀ {scope r s}, I s → I (resumed scope r s))
    (hvisit : ∀ c ∈ ts, ∀ {s reg s'}, Yields (visit scope c.tree) s reg s' → I s → I s')
    (h : Yields (tasksBy visit scope ts) s regs s') (hs : I s) : I s' := by
  induction ts generalizing s regs with
  | nil => exact (yields_tasksBy_nil.1 h).2 ▸ hs
  | cons c ts ih =>
    obtain ⟨reg, s₁, regs', hfirst, hrest, -⟩ := yields_tasksBy_cons.1 h
    exact ih (fun d hd => hvisit d (List.mem_cons_of_mem c hd)) hrest
      (hvisit c List.mem_cons_self hfirst (hresumed hs))

namespace Outline

variable (o : Outline visit leave)
include o

theorem yields_hole : Yields (visit scope .hole) s reg s' ↔ reg = ∅ ∧ s = s' := by
  rw [o.hole, yields_pure]
  exact and_congr_left' eq_comm

theorem yields_visit (h : t.isHole = false) : Yields (visit scope t) s reg s' ↔
    ∃ regs s₁, Yields (tasksBy visit (t.inner scope) t.tasks) (entered scope t s) regs s₁ ∧
      Yields (leave scope regs t) s₁ reg s' := by
  rw [o.node scope t h]
  simp only [yields_bind, yields_annotate]
  constructor
  · rintro ⟨⟨⟩, _, rfl, regs, s₁, hbelow, hleave⟩
    exact ⟨regs, s₁, hbelow, hleave⟩
  · rintro ⟨regs, s₁, hbelow, hleave⟩
    exact ⟨(), _, rfl, regs, s₁, hbelow, hleave⟩

/-- A traversal is determined by how it leaves nodes. -/
theorem eq_of_leave {visit' : Scope → Tree → Check RegionSet} (o' : Outline visit' leave) :
    visit = visit' := by
  funext scope t
  induction t using Tree.induction_on_tasks generalizing scope with
  | step t ih =>
    cases hhole : t.isHole with
    | true => rw [Tree.eq_hole hhole, o.hole, o'.hole]
    | false =>
      rw [o.node scope t hhole, o'.node scope t hhole]
      rw [tasksBy_congr fun c hc => ih c hc (t.inner scope)]

/-- A traversal that can leave every node as another one does goes through whatever the other one
goes through. -/
theorem mono {visit' : Scope → Tree → Check RegionSet}
    {leave' : Scope → List RegionSet → Tree → Check RegionSet} (o' : Outline visit' leave')
    (hleave : ∀ {scope regs t s reg s'},
      Yields (leave scope regs t) s reg s' → Yields (leave' scope regs t) s reg s')
    (h : Yields (visit scope t) s reg s') : Yields (visit' scope t) s reg s' := by
  induction t using Tree.induction_on_tasks generalizing scope s reg s' with
  | step t ih =>
    cases hhole : t.isHole with
    | true =>
      rw [Tree.eq_hole hhole] at h ⊢
      exact o'.yields_hole.2 (o.yields_hole.1 h)
    | false =>
      obtain ⟨regs, s₁, hbelow, hown⟩ := (o.yields_visit hhole).1 h
      exact (o'.yields_visit hhole).2 ⟨regs, s₁, hbelow.tasksBy_mono fun c hc => ih c hc,
        hleave hown⟩

/-- A run that fails has come to a node and fails in leaving it. -/
theorem exists_failing (h : (visit scope t).outcome s = (.error e, s')) :
    ∃ p, Reaches visit scope t s p ∧
      (leave p.scope p.regs p.node).outcome p.state = (.error e, s') := by
  induction t using Tree.induction_on_tasks generalizing scope s with
  | step t ih =>
    cases hhole : t.isHole with
    | true =>
      rw [Tree.eq_hole hhole, o.hole] at h
      cases h
    | false =>
      have hrun : (tasksBy visit (t.inner scope) t.tasks >>= fun regs => leave scope regs t).outcome
          (entered scope t s) = (.error e, s') := by
        rw [o.node scope t hhole] at h
        exact h
      rw [outcome_bind] at hrun
      rcases hbelow : (tasksBy visit (t.inner scope) t.tasks).outcome (entered scope t s)
        with ⟨e' | regs, s₁⟩
      · rw [hbelow] at hrun
        cases hrun
        obtain ⟨ts, c, us, regs, s₂, hsplit, hearlier, hfails⟩ := exists_failing_task hbelow
        obtain ⟨p, hp, hleave⟩ := ih c (by simp [hsplit]) hfails
        exact ⟨p, .deeper hhole hsplit hearlier hp, hleave⟩
      · rw [hbelow] at hrun
        exact ⟨_, .here hhole hbelow, hrun⟩

/-- A run that succeeds has come to every node. -/
theorem exists_arrival (h : Yields (visit scope t) s reg s') (hn : n ∈ t.nodes) :
    ∃ p, Reaches visit scope t s p ∧ p.node = n := by
  induction t using Tree.induction_on_tasks generalizing scope s reg s' with
  | step t ih =>
    obtain ⟨hhole, hn⟩ := Tree.mem_nodes.1 hn
    obtain ⟨regs, s₁, hbelow, -⟩ := (o.yields_visit hhole).1 h
    rcases hn with rfl | ⟨c, hc, hn⟩
    · exact ⟨_, .here hhole hbelow, rfl⟩
    · obtain ⟨ts, us, hsplit⟩ := List.append_of_mem hc
      rw [hsplit] at hbelow
      obtain ⟨regs₁, s₂, regs₂, hearlier, hrest, -⟩ := yields_tasksBy_append.1 hbelow
      obtain ⟨reg', s₃, regs₃, hvisit, -, -⟩ := yields_tasksBy_cons.1 hrest
      obtain ⟨p, hp, hnode⟩ := ih c hc hvisit hn
      exact ⟨p, .deeper hhole hsplit hearlier hp, hnode⟩

/-! ## What leaving a node keeps -/

section
variable {I : CheckState → Prop} (hentered : ∀ {scope t s}, I s → I (entered scope t s))
  (hresumed : ∀ {scope r s}, I s → I (resumed scope r s))
include hentered hresumed

theorem keeps (hleave : ∀ n ∈ t.nodes,
      ∀ {scope regs s reg s'}, Yields (leave scope regs n) s reg s' → I s → I s')
    (h : Yields (visit scope t) s reg s') (hs : I s) : I s' := by
  induction t using Tree.induction_on_tasks generalizing scope s reg s' with
  | step t ih =>
    cases hhole : t.isHole with
    | true =>
      rw [Tree.eq_hole hhole] at h
      exact (o.yields_hole.1 h).2 ▸ hs
    | false =>
      obtain ⟨regs, s₁, hbelow, hown⟩ := (o.yields_visit hhole).1 h
      have hfound : I s₁ := keeps_tasksBy hresumed (fun c hc => ih c hc fun n hn =>
        hleave n (Tree.mem_nodes.2 ⟨hhole, .inr ⟨c, hc, hn⟩⟩)) hbelow (hentered hs)
      exact hleave t (Tree.mem_nodes.2 ⟨hhole, .inl rfl⟩) hown hfound

theorem keeps_arrival
    (hleave :
      ∀ n ∈ t.nodes, ∀ {scope regs s reg s'}, Yields (leave scope regs n) s reg s' → I s → I s')
    (h : Reaches visit scope t s p) (hs : I s) : I p.state := by
  induction h with
  | here present below =>
    refine keeps_tasksBy hresumed (fun c hc => o.keeps hentered hresumed fun n hn => ?_) below
      (hentered hs)
    exact hleave n (Tree.mem_nodes.2 ⟨present, .inr ⟨c, hc, hn⟩⟩)
  | @deeper _ t _ _ _ ts us c _ present split earlier _ ih =>
    have hbelow : ∀ d ∈ t.tasks, ∀ n ∈ d.tree.nodes, n ∈ t.nodes := fun d hd n hn =>
      Tree.mem_nodes.2 ⟨present, .inr ⟨d, hd, hn⟩⟩
    refine ih (fun n hn => hleave n (hbelow c (by simp [split]) n hn)) (hresumed ?_)
    refine keeps_tasksBy hresumed (fun d hd => o.keeps hentered hresumed fun n hn => ?_) earlier
      (hentered hs)
    exact hleave n (hbelow d (by simp [split, hd]) n hn)

end

/-- Where a traversal succeeds, one that does the same and more comes to no other nodes. -/
theorem reaches_of_yields {visit' : Scope → Tree → Check RegionSet}
    (hsim :
      ∀ {scope t s reg s'}, Yields (visit scope t) s reg s' → Yields (visit' scope t) s reg s')
    (h : Yields (visit scope t) s reg s') (hp : Reaches visit' scope t s p) :
    Reaches visit scope t s p := by
  induction hp generalizing reg s' with
  | here present below =>
    obtain ⟨regs, s₁, hbelow, -⟩ := (o.yields_visit present).1 h
    obtain ⟨rfl, rfl⟩ := (hbelow.tasksBy_mono fun _ _ => hsim).unique below
    exact .here present hbelow
  | deeper present split earlier _ ih =>
    obtain ⟨regs, s₁, hbelow, -⟩ := (o.yields_visit present).1 h
    rw [split] at hbelow
    obtain ⟨regs₁, s₂, regs₂, hearlier, hrest, -⟩ := yields_tasksBy_append.1 hbelow
    obtain ⟨reg', s₃, regs₃, hvisit, -, -⟩ := yields_tasksBy_cons.1 hrest
    obtain ⟨rfl, rfl⟩ := (hearlier.tasksBy_mono fun _ _ => hsim).unique earlier
    exact .deeper present split hearlier (ih hvisit)

end Outline

/-! ## Annotations of the nodes arrived at -/

theorem Reaches.ids_sublist (h : Reaches visit scope t s p) : p.node.ids.Sublist t.ids := by
  induction h with
  | here => exact .refl _
  | deeper present split _ _ ih =>
    rw [Tree.ids_eq present, split, List.flatMap_append, List.flatMap_cons]
    exact ((ih.trans (List.sublist_append_left _ _)).trans (List.sublist_append_right _ _)).cons _

/-- What was found below a node arrived at was found from some state on. -/
theorem Reaches.exists_below (h : Reaches visit scope t s p) :
    ∃ s₀, Yields (tasksBy visit (p.node.inner p.scope) p.node.tasks)
      (entered p.scope p.node s₀) p.regs p.state := by
  induction h with
  | here _ below => exact ⟨_, below⟩
  | deeper _ _ _ _ ih => exact ih

namespace Outline

variable (o : Outline visit leave) (hmarks : Marks leave)
include o hmarks

theorem node?_of_not_mem {id : NodeId} (h : Yields (visit scope t) s reg s') (hid : id ∉ t.ids) :
    s'.annotations.node? id = s.annotations.node? id := by
  refine o.keeps (I := fun s' => s'.annotations.node? id = s.annotations.node? id)
    (fun hs => (node?_entered _ _ _ id).trans hs)
      (fun hs => (node?_resumed _ _ _ id).trans hs) ?_ h rfl
  intro n hn scope regs s₁ reg s₂ hleave hs
  have hne : n.id ≠ id := fun heq => hid (List.mem_map.2 ⟨n, hn, heq⟩)
  rw [hmarks hleave id, if_neg hne, hs]

theorem node?_of_not_mem_tasks {id : NodeId} (h : Yields (tasksBy visit scope ts) s regs s')
    (hid : ∀ c ∈ ts, id ∉ c.tree.ids) : s'.annotations.node? id = s.annotations.node? id := by
  refine keeps_tasksBy (I := fun s' => s'.annotations.node? id = s.annotations.node? id)
    (fun hs => (node?_resumed _ _ _ id).trans hs) ?_ h rfl
  intro c hc s₁ reg s₂ hvisit hs
  exact (o.node?_of_not_mem hmarks hvisit (hid c hc)).trans hs

/-- A node is annotated with the regions that its visit gives. -/
theorem regionIn_eq (h : Yields (visit scope t) s reg s') : t.regionIn s'.annotations = reg := by
  cases hhole : t.isHole with
  | true =>
    rw [Tree.eq_hole hhole] at h
    simp [Tree.regionIn, hhole, (o.yields_hole.1 h).1]
  | false =>
    obtain ⟨regs, s₁, -, hown⟩ := (o.yields_visit hhole).1 h
    simp [Tree.regionIn, hhole, hmarks hown]

/-- Trees with different numbers keep the regions that their visits give. -/
theorem regs_eq (hids : (ts.flatMap fun c => c.tree.ids).Nodup)
    (h : Yields (tasksBy visit scope ts) s regs s') :
    regs = ts.map fun c => c.tree.regionIn s'.annotations := by
  induction ts generalizing s regs with
  | nil => exact (yields_tasksBy_nil.1 h).1
  | cons c ts ih =>
    obtain ⟨reg, s₁, regs', hvisit, hrest, rfl⟩ := yields_tasksBy_cons.1 h
    rw [List.flatMap_cons, List.nodup_append] at hids
    have hfirst : c.tree.regionIn s'.annotations = c.tree.regionIn s₁.annotations := by
      refine Tree.regionIn_eq_of_node? fun hpresent =>
        o.node?_of_not_mem_tasks hmarks hrest fun d hd hmem => ?_
      exact hids.2.2 _ (Tree.id_mem_ids hpresent) _ (List.mem_flatMap.2 ⟨d, hd, hmem⟩) rfl
    rw [List.map_cons, hfirst, o.regionIn_eq hmarks hvisit, ← ih hids.2.1 hrest]

end Outline

namespace Outline

variable (o : Outline visit leave)
include o

/-- A run that succeeds leaves every node it comes to. If all nodes have different numbers, nothing
annotates the node and those below it again. -/
theorem exists_left (h : Yields (visit scope t) s reg s') (hp : Reaches visit scope t s p) :
    ∃ reg' s₁, Yields (leave p.scope p.regs p.node) p.state reg' s₁ ∧
      (Marks leave → t.ids.Nodup →
        ∀ id ∈ p.node.ids, s'.annotations.node? id = s₁.annotations.node? id) := by
  induction hp generalizing reg s' with
  | here present below =>
    obtain ⟨regs, s₁, hbelow, hown⟩ := (o.yields_visit present).1 h
    obtain ⟨rfl, rfl⟩ := hbelow.unique below
    exact ⟨reg, s', hown, fun _ _ _ _ => rfl⟩
  | @deeper _ t _ _ _ ts us c q present split earlier inside ih =>
    obtain ⟨regs, s₁, hbelow, hown⟩ := (o.yields_visit present).1 h
    rw [split] at hbelow
    obtain ⟨regs₁, s₂, regs₂, hearlier, hrest, -⟩ := yields_tasksBy_append.1 hbelow
    obtain ⟨reg', s₃, regs₃, hvisit, hlater, -⟩ := yields_tasksBy_cons.1 hrest
    obtain ⟨rfl, rfl⟩ := hearlier.unique earlier
    obtain ⟨reg₁, s₄, hleft, hsame⟩ := ih hvisit
    refine ⟨reg₁, s₄, hleft, fun hmarks hids id hid => ?_⟩
    rw [Tree.ids_eq present, split, List.flatMap_append, List.flatMap_cons, List.nodup_cons] at hids
    have hinner : id ∈ c.tree.ids := inside.ids_sublist.subset hid
    have hown_ne : t.id ≠ id := fun heq =>
      hids.1 (heq ▸ List.mem_append_right _ (List.mem_append_left _ hinner))
    have htail := (List.nodup_append.1 hids.2).2.1
    have hlater_ne : ∀ d ∈ us, id ∉ d.tree.ids := fun d hd hmem =>
      (List.nodup_append.1 htail).2.2 id hinner id (List.mem_flatMap.2 ⟨d, hd, hmem⟩) rfl
    rw [hmarks hown id, if_neg hown_ne, o.node?_of_not_mem_tasks hmarks hlater hlater_ne]
    exact hsame hmarks (List.nodup_append.1 htail).1 id hid

/-- If all nodes have different numbers, a node arrived at and the trees below it are in the end
annotated with the regions that were found for them. -/
theorem arrival_annotated (hmarks : Marks leave) (h : Yields (visit scope t) s reg s')
    (hp : Reaches visit scope t s p) (hids : t.ids.Nodup) :
    (∃ s₁, Yields (leave p.scope p.regs p.node) p.state (p.node.regionIn s'.annotations) s₁) ∧
      p.regs = p.node.tasks.map fun c => c.tree.regionIn s'.annotations := by
  obtain ⟨reg', s₁, hleft, hsame⟩ := o.exists_left h hp
  have hsame := hsame hmarks hids
  have hnode : p.node.regionIn s'.annotations = reg' := by
    have hid := hsame _ (Tree.id_mem_ids hp.present)
    rw [hmarks hleft, if_pos rfl] at hid
    simp [Tree.regionIn, hp.present, hid]
  have hown : p.node.ids.Nodup := hids.sublist hp.ids_sublist
  rw [Tree.ids_eq hp.present, List.nodup_cons] at hown
  obtain ⟨s₀, hbelow⟩ := hp.exists_below
  refine ⟨⟨s₁, hnode ▸ hleft⟩,
    (o.regs_eq hmarks hown.2 hbelow).trans (List.map_congr_left fun c hc => ?_)⟩
  refine Tree.regionIn_eq_of_node? fun hpresent => ?_
  have hmem : c.tree.id ∈ p.node.tasks.flatMap fun c => c.tree.ids :=
    List.mem_flatMap.2 ⟨c, hc, Tree.id_mem_ids hpresent⟩
  have hne : p.node.id ≠ c.tree.id := fun heq => hown.1 (heq ▸ hmem)
  have hid : c.tree.id ∈ p.node.ids := by
    rw [Tree.ids_eq hp.present]
    exact List.mem_cons_of_mem _ hmem
  rw [hsame _ hid, hmarks hleft, if_neg hne]

end Outline

end Check

end RegionCapture
