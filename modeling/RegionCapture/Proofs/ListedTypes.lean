import RegionCapture.Listing
import RegionCapture.Proofs.Traversal
import RegionCapture.Proofs.TypePrinting

/-!
# The types in a listing

A listing shows the types of parameters and of results, and nothing else in it can fail: it is
written to the end exactly if each of those types has a text, and otherwise stops at an absent part
(`Listing.needs_text`). A type has a text exactly if it is complete (`Ty.needs_text`). So an absent
parameter of a function type, which the check of a unit never looks at, stands in the way of the
listing.
-/

namespace RegionCapture

/-- The computation has a value if `p` holds, and stops at an absent part if not. -/
def Needs {α : Type} (p : Prop) (x : Except Fault α) : Prop :=
  (p ∧ ∃ a, x = .ok a) ∨ (¬ p ∧ x = .error .absentPart)

section
variable {α β : Type} {p q : Prop} {x : Except Fault α} {f : α → Except Fault β}

theorem needs_ok (a : α) : Needs True (.ok a) := .inl ⟨trivial, a, rfl⟩

theorem Needs.congr (h : Needs p x) (hpq : p ↔ q) : Needs q x := by rwa [Needs, ← hpq]

theorem Needs.bind (hx : Needs p x) (hf : ∀ a, Needs q (f a)) : Needs (p ∧ q) (x >>= f) := by
  rcases hx with ⟨hp, a, rfl⟩ | ⟨hp, rfl⟩
  · exact (hf a).congr ⟨fun hq => ⟨hp, hq⟩, And.right⟩
  · exact .inr ⟨fun h => hp h.1, rfl⟩

theorem Needs.exists_iff (h : Needs p x) : (∃ a, x = .ok a) ↔ p := by
  rcases h with ⟨hp, hx⟩ | ⟨hp, rfl⟩
  · exact iff_of_true hx hp
  · exact iff_of_false nofun hp

theorem Needs.eq_error_of_not (h : Needs p x) (hp : ¬ p) : x = .error .absentPart :=
  (h.resolve_left fun h => hp h.1).2

end

/-! ## Types with a text -/

namespace Ty

mutual
theorem needs_text : ∀ t : Ty, Needs t.Complete t.text
  | absent => .inr ⟨by simp [Complete], by rw [text]⟩
  | con name module => (needs_ok _).congr (by simp [Complete])
  | app ctor args => by
    rw [text, Complete]
    refine ((needs_texts args).bind fun _ => (needs_text ctor).bind fun _ => needs_ok _).congr ?_
    simp [and_comm]
  | tuple elems => by
    rw [text, Complete]
    exact ((needs_texts elems).bind fun _ => needs_ok _).congr (by simp)
  | fn params blocks result capture => by
    have hresult : Needs (result.isAbsent = false → result.Complete) result.resultText := by
      unfold resultText
      cases habsent : result.isAbsent with
      | true => exact (needs_ok _).congr (by simp)
      | false => exact (needs_text result).congr (by simp)
    rw [text_fn, Complete]
    refine ((needs_texts params).bind fun _ => (needs_texts blocks).bind fun _ =>
      hresult.bind fun _ => needs_ok _).congr ?_
    simp

theorem needs_texts : ∀ ts : List Ty, Needs (Completes ts) (texts ts)
  | [] => (needs_ok _).congr (by simp [Completes])
  | t :: ts => by
    rw [texts, Completes]
    exact ((needs_text t).bind fun _ => (needs_texts ts).bind fun _ => needs_ok _).congr (by simp)
end

end Ty

/-- Where the type is shown it has a text; an absent type is not shown. -/
def Ty.Shown (type : Ty) : Prop := type.isAbsent = false → ∃ s, type.text = .ok s

/-- The types that a node brings into a listing, if they are not absent. -/
def Tree.shownTypes : Tree → List Ty
  | function _ _ ps _ result _ => result :: ps.map Param.type
  | lambda _ _ ps _ _ _ _ | blockArg _ ps _ _ => ps.map Param.type
  | handle _ _ handlers _ =>
    handlers.flatMap fun h => h.clauses.flatMap fun c => c.params.map Param.type
  | _ => []

/-- Every type that a listing of the tree shows has a text. -/
def Tree.Showable (t : Tree) : Prop :=
  ∀ n ∈ t.nodes, ∀ type ∈ n.shownTypes, type.isAbsent = false → ∃ s, type.text = .ok s

theorem Tree.showable_iff_complete {t : Tree} : t.Showable ↔
    ∀ n ∈ t.nodes, ∀ type ∈ n.shownTypes, type.isAbsent = false → type.Complete := by
  simp only [Showable, (Ty.needs_text _).exists_iff]

theorem Tree.showable_hole : hole.Showable := fun n hn => by simp [nodes, walk] at hn

theorem Tree.showable_iff {t : Tree} (h : t.isHole = false) :
    t.Showable ↔ (∀ type ∈ t.shownTypes, type.Shown) ∧ ∀ c ∈ t.tasks, c.tree.Showable := by
  rw [Showable, nodes_eq h, List.forall_mem_cons]
  simp only [List.forall_mem_flatMap]
  rfl

/-! ## Printers that may stop -/

namespace Printer

/-- Wherever the pen stands, the printer writes to the end if `p` holds, and stops if not. -/
def WritesIff (p : Prop) (m : Printer Unit) : Prop := ∀ pen, Needs p (m.run pen)

section
variable {α : Type} {p q : Prop} {m n lead : Printer Unit} {s : String}

theorem writesIff_pure : WritesIff True (pure ()) := fun _ => needs_ok _

theorem writesIff_write : WritesIff True (write s) := fun _ => needs_ok _

theorem writesIff_startLine : WritesIff True startLine := fun _ => needs_ok _

theorem WritesIff.congr (h : WritesIff p m) (hpq : p ↔ q) : WritesIff q m :=
  fun pen => (h pen).congr hpq

theorem WritesIff.seq (hm : WritesIff p m) (hn : WritesIff q n) :
    WritesIff (p ∧ q) (m >>= fun _ => n) := by
  intro pen
  rw [StateT.run_bind]
  exact (hm pen).bind fun r => hn r.2

theorem WritesIff.after (hm : WritesIff True m) (hn : WritesIff q n) :
    WritesIff q (m >>= fun _ => n) :=
  (hm.seq hn).congr (by simp)

theorem WritesIff.before (hm : WritesIff p m) (hn : WritesIff True n) :
    WritesIff p (m >>= fun _ => n) :=
  (hm.seq hn).congr (by simp)

theorem WritesIff.nested (hm : WritesIff p m) : WritesIff p (nested m) := by
  have hin : WritesIff True (modify fun pen => { pen with indent := pen.indent + 1 }) :=
    fun _ => needs_ok _
  have hout : WritesIff True (modify fun pen => { pen with indent := pen.indent - 1 }) :=
    fun _ => needs_ok _
  exact hin.after (hm.before hout)

/-- A part that is left out could not have stopped. -/
theorem WritesIff.when {wanted : Bool} (hm : WritesIff p m) (h : wanted = false → p) :
    WritesIff p (when wanted m) := by
  cases wanted with
  | true => exact hm
  | false => exact writesIff_pure.congr (iff_of_true trivial (h rfl))

theorem writesIff_each {part : α → Printer Unit} {fine : α → Prop} {as : List α}
    (hlead : WritesIff True lead) (h : ∀ a ∈ as, WritesIff (fine a) (part a)) :
    WritesIff (∀ a ∈ as, fine a) (each lead (as.map part)) := by
  induction as with
  | nil => exact writesIff_pure.congr (by simp)
  | cons a as ih =>
    obtain ⟨ha, has⟩ := List.forall_mem_cons.1 h
    exact (hlead.after (ha.seq (ih has))).congr List.forall_mem_cons.symm

theorem writesIff_separated {part : α → Printer Unit} {fine : α → Prop} {as : List α}
    (h : ∀ a ∈ as, WritesIff (fine a) (part a)) :
    WritesIff (∀ a ∈ as, fine a) (separated (as.map part)) := by
  cases as with
  | nil => exact writesIff_pure.congr (by simp)
  | cons a as =>
    obtain ⟨ha, has⟩ := List.forall_mem_cons.1 h
    exact (ha.seq (writesIff_each writesIff_write has)).congr List.forall_mem_cons.symm

end

end Printer

/-! ## What a node needs -/

namespace Listing

open Printer

section
variable {l : Listing}

theorem printEach_eq_map (ts : List Tree) : l.printEach ts = ts.map l.print := by
  induction ts with
  | nil => rfl
  | cons t ts ih => rw [printEach, ih, List.map_cons]

theorem printClauses_eq_map (cs : List Clause) :
    l.printClauses cs = cs.map fun c =>
      l.clause c.operation c.params c.resume (l.print c.body) := by
  induction cs with
  | nil => rfl
  | cons c cs ih =>
    cases c
    rw [printClauses, ih, List.map_cons]

theorem printHandlers_eq_map (hs : List Handler) :
    l.printHandlers hs = hs.map fun h =>
      l.handler h.capability h.effect (l.printClauses h.clauses) := by
  induction hs with
  | nil => rfl
  | cons h hs ih =>
    cases h
    rw [printHandlers, ih, List.map_cons]

theorem writesIff_typeNote (type : Ty) : WritesIff type.Shown (typeNote type) := by
  unfold Ty.Shown
  cases habsent : type.isAbsent with
  | true =>
    rw [typeNote, habsent]
    exact writesIff_pure.congr (by simp)
  | false =>
    refine WritesIff.when (fun pen => ?_) (by simp [habsent])
    -- nothing is written before the text of the type is there
    rcases type.needs_text with ⟨-, s, hs⟩ | ⟨-, hs⟩
    · rw [hs]
      exact (needs_ok _).congr (by simp)
    · rw [hs]
      exact .inr ⟨by simp, rfl⟩

theorem writesIff_params (ps : List Param) : WritesIff (∀ p ∈ ps, p.type.Shown) (l.params ps) := by
  have hparams : ∀ p ∈ ps, WritesIff p.type.Shown (l.param p) :=
    fun p _ => writesIff_write.after (writesIff_typeNote p.type)
  exact writesIff_write.after ((writesIff_separated hparams).before writesIff_write)

theorem writesIff_clause {c : Clause} (hbody : WritesIff c.body.Showable (l.print c.body)) :
    WritesIff ((∀ p ∈ c.params, p.type.Shown) ∧ c.body.Showable)
      (l.clause c.operation c.params c.resume (l.print c.body)) :=
  writesIff_write.after ((writesIff_params c.params).seq (writesIff_write.after hbody))

theorem writesIff_handler {h : Handler}
    (hbodies : ∀ c ∈ h.clauses, WritesIff c.body.Showable (l.print c.body)) :
    WritesIff (∀ c ∈ h.clauses, (∀ p ∈ c.params, p.type.Shown) ∧ c.body.Showable)
      (l.handler h.capability h.effect (l.printClauses h.clauses)) := by
  have hclauses := (writesIff_each writesIff_startLine fun c hc =>
    writesIff_clause (hbodies c hc)).nested
  have hend : WritesIff True (when (!(l.printClauses h.clauses).isEmpty) startLine) :=
    writesIff_startLine.when fun _ => trivial
  rw [← printClauses_eq_map] at hclauses
  exact writesIff_write.after (hclauses.before (hend.after writesIff_write))

/-- A node is written to the end if the types it shows have a text and the trees below it can be
written. -/
theorem writesIff_node {t : Tree} (hpresent : t.isHole = false)
    (hbelow : ∀ c ∈ t.tasks, WritesIff c.tree.Showable (l.print c.tree)) :
    WritesIff ((∀ type ∈ t.shownTypes, type.Shown) ∧
      ∀ c ∈ t.tasks, c.tree.Showable) (l.print t) := by
  cases t with
  | hole => cases hpresent
  | module info name defs imports =>
    have hdefs : ∀ t ∈ defs, WritesIff t.Showable (l.print t) := List.forall_mem_map.1 hbelow
    rw [print, printEach_eq_map]
    refine (writesIff_write.after
      ((writesIff_each writesIff_write hdefs).before writesIff_write)).congr ?_
    simp [Tree.shownTypes, Tree.tasks, Tree.task]
  | function info symbol ps bs result body =>
    have hbody := hbelow body.task List.mem_cons_self
    rw [print]
    refine (writesIff_write.after ((writesIff_params ps).seq (writesIff_write.after
      ((writesIff_typeNote result).seq (writesIff_write.after hbody))))).congr ?_
    simp [Tree.shownTypes, Tree.tasks, and_assoc, and_left_comm]
  | lambda info symbol ps bs result slot body =>
    have hbody := hbelow body.task List.mem_cons_self
    rw [print]
    refine (writesIff_write.after
      ((writesIff_params ps).seq (writesIff_write.after hbody))).congr ?_
    simp [Tree.shownTypes, Tree.tasks]
  | blockArg info ps bs body =>
    have hbody := hbelow body.task List.mem_cons_self
    -- the parameters are left out only if there are none
    have hhead : WritesIff (∀ p ∈ ps, p.type.Shown) (when (!ps.isEmpty || !bs.isEmpty) do
        l.params ps
        write (l.blocks bs ++ " => ")) :=
      ((writesIff_params ps).before writesIff_write).when (by simp +contextual)
    rw [print]
    refine (writesIff_write.after (hhead.seq (hbody.before writesIff_write))).congr ?_
    simp [Tree.shownTypes, Tree.tasks]
  | handle info body handlers type =>
    obtain ⟨hbody, hclauses⟩ := List.forall_mem_cons.1 hbelow
    have hhandlers : ∀ h ∈ handlers,
        WritesIff _ (l.handler h.capability h.effect (l.printClauses h.clauses)) :=
      fun h hh => writesIff_handler fun c hc =>
        hclauses ⟨some c.resume, c.body⟩ (List.mem_flatMap_of_mem hh (List.mem_map_of_mem hc))
    rw [print, printHandlers_eq_map]
    refine (writesIff_write.after (hbody.seq (writesIff_write.after
      (writesIff_each writesIff_write hhandlers)))).congr ?_
    simp only [Tree.shownTypes, Tree.tasks, Tree.task, Tree.clauseTasks, List.forall_mem_cons,
      List.forall_mem_flatMap, List.forall_mem_map]
    grind
  | cell info symbol init =>
    rw [print]
    exact (writesIff_write.after (hbelow init.task List.mem_cons_self)).congr
      (by simp [Tree.shownTypes, Tree.tasks])
  | binding info symbol type init =>
    rw [print]
    exact (writesIff_write.after (hbelow init.task List.mem_cons_self)).congr
      (by simp [Tree.shownTypes, Tree.tasks])
  | block info stmts =>
    have hstmts : ∀ t ∈ stmts, WritesIff t.Showable (l.print t) := List.forall_mem_map.1 hbelow
    rw [print, printEach_eq_map]
    refine (writesIff_write.after ((writesIff_each writesIff_startLine hstmts).nested.before
      (writesIff_startLine.after writesIff_write))).congr ?_
    simp [Tree.shownTypes, Tree.tasks, Tree.task]
  | ref info symbol => exact writesIff_write.congr (by simp [Tree.shownTypes, Tree.tasks])
  | assign info symbol value =>
    rw [print]
    exact (writesIff_write.after (hbelow value.task List.mem_cons_self)).congr
      (by simp [Tree.shownTypes, Tree.tasks])
  | call info callee args blockArgs type =>
    obtain ⟨hcallee, hbelow⟩ := List.forall_mem_cons.1 hbelow
    obtain ⟨hargs, hblocks⟩ := List.forall_mem_append.1 (List.forall_mem_map.1 hbelow)
    rw [print, printEach_eq_map, printEach_eq_map]
    refine (hcallee.seq (writesIff_write.after ((writesIff_separated hargs).seq
      (writesIff_write.after (writesIff_each writesIff_write hblocks))))).congr ?_
    simp only [Tree.shownTypes, Tree.tasks, Tree.task, List.forall_mem_cons, List.forall_mem_map,
      List.forall_mem_append]
    simp
  | ret info value type =>
    rw [print]
    exact (writesIff_write.after (hbelow value.task List.mem_cons_self)).congr
      (by simp [Tree.shownTypes, Tree.tasks])
  | literal info value => exact writesIff_write.congr (by simp [Tree.shownTypes, Tree.tasks])
  | cond info condition consequence alternative =>
    obtain ⟨hcondition, hbelow⟩ := List.forall_mem_cons.1 hbelow
    obtain ⟨hconsequence, hbelow⟩ := List.forall_mem_cons.1 hbelow
    have helse := List.forall_mem_singleton.1 hbelow
    have halternative : WritesIff alternative.Showable (when (!alternative.isHole) do
        write " else "
        l.print alternative) := by
      refine (writesIff_write.after helse).when fun hmissing => ?_
      cases alternative with
      | hole => exact Tree.showable_hole
      | _ => cases hmissing
    rw [print]
    refine (writesIff_write.after
      (hcondition.seq (writesIff_write.after (hconsequence.seq halternative)))).congr ?_
    simp [Tree.shownTypes, Tree.tasks, Tree.task]

/-- A tree is written to the end exactly if all types that its listing shows have a text. -/
theorem writesIff_print (t : Tree) : WritesIff t.Showable (l.print t) := by
  induction t using Tree.induction_on_tasks with
  | step t ih =>
    cases hpresent : t.isHole with
    | true =>
      cases t with
      | hole => exact writesIff_write.congr (iff_of_true trivial Tree.showable_hole)
      | _ => cases hpresent
    | false => exact (writesIff_node hpresent ih).congr (Tree.showable_iff hpresent).symm

theorem needs_text (l : Listing) (t : Tree) : Needs t.Showable (l.text t) := by
  rw [text]
  exact ((writesIff_print t {}).bind fun r => needs_ok r.2.written).congr (by simp)

end

end Listing

end RegionCapture
