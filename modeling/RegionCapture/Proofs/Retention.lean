import RegionCapture.Proofs.Arrival
import RegionCapture.Proofs.BoundOnce
import RegionCapture.Proofs.Report

/-!
# Symbols keep what they capture

A symbol that is bound once captures nothing until its binder is reached (`Annotations.Blank`). So
what a symbol captures at some point of a run it captures later on (`Annotations.Keeps`), with one
exception: a definition captures the static region around it while its body is checked, and what its
body captures once it is left. This goes for a node that is visited (`Check.Visit.Child.keeps`,
`Check.Visit.keeps_left`) and for a node that a run, however it ends, has come to
(`Check.Reaches.exists_blank`).
-/

namespace RegionCapture

namespace Annotations

def Blank (a : Annotations) (xs : List SymbolId) : Prop := ∀ x ∈ xs, a.symbolRegion x = ∅

/-- Every symbol captures at least what it captured before. -/
def Keeps (a b : Annotations) : Prop := ∀ x, ∀ r ∈ a.symbolRegion x, r ∈ b.symbolRegion x

variable {P : Footprint} {a b c : Annotations} {xs ys : List SymbolId}

theorem Keeps.trans (h : a.Keeps b) (h' : b.Keeps c) : a.Keeps c := fun x r hr => h' x r (h x r hr)

theorem keeps_of_symbol? (h : ∀ x, b.symbol? x = a.symbol? x) : a.Keeps b := fun x r hr => by
  rwa [symbolRegion, h x]

theorem Blank.subset (h : a.Blank ys) (hsub : xs ⊆ ys) : a.Blank xs := fun x hx => h x (hsub hx)

/-- Symbols stay blank while others are annotated. -/
theorem Blank.sameOutside (h : a.Blank xs) (hsame : a.SameOutside P b)
    (hout : ∀ x ∈ xs, ¬ P.symbols x) :
    b.Blank xs := by
  intro x hx
  rw [symbolRegion, hsame.symbols x (hout x hx)]
  exact h x hx

/-- Annotating blank symbols takes nothing away. -/
theorem Blank.keeps (h : a.Blank xs) (hsame : a.SameOutside P b)
    (hin : ∀ x, P.symbols x → x ∈ xs) : a.Keeps b := by
  intro x r hr
  by_cases hx : P.symbols x
  · rw [h x (hin x hx)] at hr
    exact absurd hr (RegionSet.not_mem_empty r)
  · rwa [symbolRegion, hsame.symbols x hx]

end Annotations

namespace Check

variable {env : CheckEnv} {scope inner : Scope} {t : Tree} {s s₁ : CheckState} {ts us : List Task}
  {c : Task} {regs : List RegionSet} {p : Arrival}

/-- When a tree below a node is reached, what is bound in it and in later ones is still blank. -/
theorem blank_resumed (h : t.isHole = false) (hnodup : t.allBinders.Nodup)
    (hsplit : t.tasks = ts ++ c :: us) (hblank : s.annotations.Blank t.allBinders)
    (hearlier : Yields (tasks env inner ts) (entered scope t s) regs s₁) :
    (resumed inner c.resume s₁).annotations.Blank
      (c.tree.allBinders ++ us.flatMap Task.binders) := by
  have hdistinct := List.nodup_append.1 (Tree.nodup_split h hnodup hsplit)
  have hbelow := List.nodup_append.1 hdistinct.2.1
  have hown := List.nodup_append.1 hbelow.2.1
  have hsub : c.tree.allBinders ++ us.flatMap Task.binders ⊆ t.allBinders := by
    intro x hx
    rw [(Tree.allBinders_perm h).mem_iff, hsplit, List.flatMap_append, List.flatMap_cons,
      Task.binders]
    simp only [List.mem_append] at hx ⊢
    grind
  have hentered := (hblank.subset hsub).sameOutside (t.entry_sameOutside scope s.annotations)
    fun x hx hin =>
    hdistinct.2.2 x hin x (List.mem_append_right _ (List.mem_append_right _ hx)) rfl
  have hreached := hentered.sameOutside (steps_tasks hearlier).sameOutside fun x hx hin =>
    hbelow.2.2 x (Tree.mem_footprints.1 hin) x (List.mem_append_right _ hx) rfl
  have hresumed : Steps ⟨fun _ => False, (· ∈ c.resume.toList)⟩ s₁ (resumed inner c.resume s₁) :=
    steps_resumed fun x hx => by simp [hx]
  exact hreached.sameOutside hresumed.sameOutside fun x hx hin => hown.2.2 x hin x hx rfl

/-- What is bound below a node that a run has come to was blank when the node was entered. -/
theorem Reaches.exists_blank (hp : Reaches (node env) scope t s p) (hnodup : t.allBinders.Nodup)
    (hblank : s.annotations.Blank t.allBinders) :
    ∃ s₀, p.node.allBinders.Nodup ∧ s₀.annotations.Blank p.node.allBinders ∧
      Yields (tasks env (p.node.inner p.scope) p.node.tasks)
        (entered p.scope p.node s₀) p.regs p.state := by
  induction hp with
  | @here scope t s s₁ regs present below =>
    rw [← tasks_eq_tasksBy] at below
    exact ⟨s, hnodup, hblank, below⟩
  | @deeper scope t s s₁ regs ts us c q present split earlier _ ih =>
    rw [← tasks_eq_tasksBy] at earlier
    have hbelow := blank_resumed present hnodup split hblank earlier
    have hinside := (List.nodup_append.1 (Tree.nodup_later present hnodup split)).1
    exact ih hinside (hbelow.subset (List.subset_append_left _ _))

namespace Visit

variable {v w : Visit env} {i : Nat}

theorem Child.blank (h : v.Child i w) (hnodup : v.tree.allBinders.Nodup)
    (hblank : v.before.annotations.Blank v.tree.allBinders) :
    w.before.annotations.Blank w.tree.allBinders := by
  obtain ⟨ts, us, resume, regs, regs', s, -, hsplit, -, hearlier, hstarts, -, -⟩ := h
  rw [hstarts]
  exact (blank_resumed v.present hnodup hsplit hblank hearlier).subset (List.subset_append_left _ _)

/-- The trees after a tree take nothing away from what symbols capture after it. -/
theorem Child.keeps (h : v.Child i w) (hnodup : v.tree.allBinders.Nodup)
    (hblank : v.before.annotations.Blank v.tree.allBinders) :
    w.after.annotations.Keeps v.found.annotations := by
  obtain ⟨ts, us, resume, regs, regs', s, -, hsplit, -, hearlier, hstarts, hlater, -⟩ := h
  have hreached := blank_resumed v.present hnodup hsplit hblank hearlier
  rw [← hstarts] at hreached
  have hapart := List.nodup_append.1 (Tree.nodup_later v.present hnodup hsplit)
  have hafter := (hreached.subset (List.subset_append_right _ _)).sameOutside
    (steps_node w.yields_node_of_visit).sameOutside fun x hx hin => hapart.2.2 x hin x hx rfl
  exact hafter.keeps (steps_tasks hlater).sameOutside fun x hx => Tree.mem_footprints.1 hx

/-- Leaving a node that is no definition takes nothing away from what symbols capture. -/
theorem keeps_left (v : Visit env) (hnodup : v.tree.allBinders.Nodup)
    (hblank : v.before.annotations.Blank v.tree.allBinders) (hdef : v.tree.definition? = none) :
    v.found.annotations.Keeps v.after.annotations := by
  intro x r hr
  by_cases hx : v.tree.completes? = some x
  · -- only an immutable binding is completed without being a definition, and its symbol is blank
    -- until then
    cases htree : v.tree with
    | binding info symbol type init =>
      rw [htree] at hx
      cases hx
      have hin : x ∈ v.tree.introduced := by simp [htree, Tree.introduced]
      have hfound := v.symbol?_found hnodup hin
      rw [htree] at hfound
      have hnothing := hblank x ((Tree.own_sub_footprint v.present).symbols x hin)
      rw [Annotations.symbolRegion, hfound] at hr
      rw [Annotations.symbolRegion] at hnothing
      exact absurd (hnothing ▸ hr) (RegionSet.not_mem_empty r)
    | _ => simp [htree, Tree.completes?, Tree.definition?] at hx hdef
  · rwa [Annotations.symbolRegion, symbol?_leave v.left hx]

end Visit

end Check

/-- Only imports capture something before a unit is checked. -/
theorem Module.BoundOnce.blank_start {m : Module} (h : m.BoundOnce) :
    m.startAnnotations.Blank m.tree.allBinders := by
  refine m.startAnnotations_induction (P := fun a => a.Blank m.tree.allBinders) (fun _ _ => rfl)
    (fun a i hi ha => ?_)
    fun a symbol ha x hx => ?_
  · refine ha.sameOutside (P := ⟨fun _ => False, (· = i.symbol)⟩)
      (Annotations.sameOutside_annotateSymbol rfl) ?_
    rintro x hx rfl
    exact (List.nodup_append.1 h).2.2 _ (List.mem_map.2 ⟨i, hi, rfl⟩) _ hx rfl
  · rw [Annotations.symbolRegion, Annotations.symbol?_annotateSymbol]
    split
    · rfl
    · exact ha x hx

end RegionCapture
