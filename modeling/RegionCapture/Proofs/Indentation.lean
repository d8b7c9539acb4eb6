import RegionCapture.Proofs.ListedTypes

/-!
# The indentation of a listing

A listing is written with a pen that keeps the indentation, one level deeper inside a block or a
handler and as before after it. So the place of a tree shows in the indentation of its lines and in
nothing else: `k` levels in it is written as at the margin, with `k` levels after every line break,
and the pen is left `k` levels in (`Printer.Prints`). Parts of this kind can stand one after the
other (`Printer.Steady.seq`) and inside another part (`Printer.Steady.nested`), since indenting
twice is indenting by the sum (`indentText_indentText`); a node is made of such parts if the trees
below it are (`Listing.steady_node`). A module starts its definitions at the margin wherever it
stands, and a line break in a name is not indented, so these are left out. Main statement
`Listing.print_indented`.
-/

namespace RegionCapture

/-! ## Indented text -/

/-- A text without line breaks. -/
def Unbroken (s : String) : Prop := '\n' ∉ s.toList

instance (s : String) : Decidable (Unbroken s) := inferInstanceAs (Decidable ('\n' ∉ s.toList))

theorem Unbroken.append {s t : String} (hs : Unbroken s) (ht : Unbroken t) : Unbroken (s ++ t) := by
  rw [Unbroken, String.toList_append, List.mem_append, not_or]
  exact ⟨hs, ht⟩

theorem unbroken_commas {parts : List String} (h : ∀ part ∈ parts, Unbroken part) :
    Unbroken (String.intercalate ", " parts) := by
  induction parts with
  | nil => decide
  | cons part parts ih =>
    obtain ⟨hpart, hparts⟩ := List.forall_mem_cons.1 h
    cases parts with
    | nil =>
      rw [String.intercalate_singleton]
      exact hpart
    | cons next parts =>
      rw [String.intercalate_cons_cons]
      exact (hpart.append (by decide)).append (ih hparts)

/-- A character in an indented text: a line break is followed by `k` levels of four spaces. -/
def indentChar (k : Nat) (c : Char) : List Char :=
  if c = '\n' then '\n' :: List.replicate (4 * k) ' ' else [c]

/-- The text with `k` levels of four spaces after every line break. -/
def indentText (k : Nat) (s : String) : String := String.ofList (s.toList.flatMap (indentChar k))

theorem indentText_append (k : Nat) (s t : String) :
    indentText k (s ++ t) = indentText k s ++ indentText k t := by
  simp [indentText]

theorem flatMap_indentChar_of_not_mem (k : Nat) {cs : List Char} (h : '\n' ∉ cs) :
    cs.flatMap (indentChar k) = cs := by
  induction cs with
  | nil => rfl
  | cons c cs ih =>
    rw [List.mem_cons, not_or] at h
    rw [List.flatMap_cons, ih h.2, indentChar, if_neg (Ne.symm h.1), List.singleton_append]

theorem Unbroken.indentText_eq {s : String} (h : Unbroken s) (k : Nat) : indentText k s = s := by
  rw [indentText, flatMap_indentChar_of_not_mem k h, String.ofList_toList]

theorem indentText_newline (k : Nat) : indentText k "\n" = "\n" ++ replicateText k "    " := by
  have hlevels : (replicateText k "    ").toList = List.replicate (k * 4) ' ' := by
    rw [replicateText, String.toList_join, List.flatMap_replicate]
    exact List.flatten_replicate_replicate (m := 4)
  rw [← String.toList_inj, String.toList_append, hlevels, Nat.mul_comm k 4]
  simp [indentText, indentChar]

/-- Indenting twice is indenting by the sum. -/
theorem indentText_indentText (j k : Nat) (s : String) :
    indentText j (indentText k s) = indentText (j + k) s := by
  have hchar : ∀ c, (indentChar k c).flatMap (indentChar j) = indentChar (j + k) c := by
    intro c
    by_cases hc : c = '\n'
    · have hspaces : '\n' ∉ List.replicate (4 * k) ' ' := by simp
      rw [indentChar, indentChar, if_pos hc, if_pos hc, List.flatMap_cons,
        flatMap_indentChar_of_not_mem j hspaces, indentChar, if_pos rfl, List.cons_append,
        List.replicate_append_replicate, Nat.mul_add]
    · rw [indentChar, indentChar, if_neg hc, if_neg hc, List.flatMap_singleton, indentChar,
        if_neg hc]
  rw [indentText, indentText, String.toList_ofList, List.flatMap_assoc]
  simp only [hchar]
  rfl

theorem indentText_zero (s : String) : indentText 0 s = s := by
  have hchar : indentChar 0 = fun c => [c] := by
    funext c
    rw [indentChar]
    split
    · next h =>
      rw [h]
      rfl
    · rfl
  rw [indentText, hchar, List.flatMap_singleton', String.ofList_toList]

/-! ## Printers that keep to their level -/

namespace Printer

/-- At every level of indentation the printer writes the same text, indented by that level, or stops
with the same fault. It leaves the pen at the level where it found it. -/
def Prints (m : Printer Unit) (r : Except Fault String) : Prop :=
  ∀ k written, m.run ⟨k, written⟩ = r.map fun text => ((), ⟨k, written ++ indentText k text⟩)

/-- The printer keeps to its level. -/
def Steady (m : Printer Unit) : Prop := ∃ r, m.Prints r

section
variable {m n lead : Printer Unit} {ms : List (Printer Unit)} {s : String}

theorem steady_pure : Steady (pure ()) := by
  refine ⟨.ok "", fun k written => ?_⟩
  show Except.ok ((), Pen.mk k written) = Except.ok ((), Pen.mk k (written ++ indentText k ""))
  rw [Unbroken.indentText_eq (by decide), String.append_empty]

theorem steady_write (h : Unbroken s) : Steady (write s) := by
  refine ⟨.ok s, fun k written => ?_⟩
  show Except.ok ((), Pen.mk k (written ++ s)) =
    Except.ok ((), Pen.mk k (written ++ indentText k s))
  rw [h.indentText_eq]

/-- The spaces that start a line are those that indenting a line break adds. -/
theorem steady_startLine : Steady startLine := by
  refine ⟨.ok "\n", fun k written => ?_⟩
  show Except.ok ((), Pen.mk k (written ++ "\n" ++ replicateText k "    ")) =
    Except.ok ((), Pen.mk k (written ++ indentText k "\n"))
  rw [indentText_newline, String.append_assoc]

theorem Steady.seq (hm : Steady m) (hn : Steady n) : Steady (m >>= fun _ => n) := by
  obtain ⟨r, hm⟩ := hm
  obtain ⟨r', hn⟩ := hn
  refine ⟨do return (← r) ++ (← r'), fun k written => ?_⟩
  rw [StateT.run_bind, hm k written]
  cases r with
  | error fault => rfl
  | ok text =>
    show n.run ⟨k, written ++ indentText k text⟩ = _
    rw [hn]
    cases r' with
    | error fault => rfl
    | ok text' =>
      show Except.ok ((), Pen.mk k (written ++ indentText k text ++ indentText k text')) =
        Except.ok ((), Pen.mk k (written ++ indentText k (text ++ text')))
      rw [indentText_append, String.append_assoc]

/-- Inside, the text is indented by one level more than at the place where the whole stands. -/
theorem Steady.nested (hm : Steady m) : Steady (nested m) := by
  obtain ⟨r, hm⟩ := hm
  -- at the margin the text stands one level in, and indenting that by `k` gives what is written
  -- `k + 1` levels in
  refine ⟨r.map (indentText 1), fun k written => ?_⟩
  show (m.run ⟨k + 1, written⟩ >>= fun p => Except.ok ((), Pen.mk (p.2.indent - 1) p.2.written)) = _
  rw [hm]
  cases r with
  | error fault => rfl
  | ok text =>
    show Except.ok ((), Pen.mk k (written ++ indentText (k + 1) text)) =
      Except.ok ((), Pen.mk k (written ++ indentText k (indentText 1 text)))
    rw [indentText_indentText]

theorem Steady.when (wanted : Bool) (hm : Steady m) : Steady (when wanted m) := by
  cases wanted with
  | true => exact hm
  | false => exact steady_pure

theorem steady_each (hlead : Steady lead) (hms : ∀ m ∈ ms, Steady m) : Steady (each lead ms) := by
  induction ms with
  | nil => exact steady_pure
  | cons m ms ih =>
    obtain ⟨hm, hms⟩ := List.forall_mem_cons.1 hms
    exact hlead.seq (hm.seq (ih hms))

theorem steady_separated (hms : ∀ m ∈ ms, Steady m) : Steady (separated ms) := by
  cases ms with
  | nil => exact steady_pure
  | cons m ms =>
    obtain ⟨hm, hms⟩ := List.forall_mem_cons.1 hms
    exact hm.seq (steady_each (steady_write (by decide)) hms)

end

end Printer

/-! ## What a node brings into its listing -/

namespace Listing

variable (l : Listing)

/-- The names that the comment on a node shows. -/
def notedNames (info : Anchor) : List String :=
  match l.annotations.bind fun a => a.node? info.id with
  | some s => s.elems.map fun r => l.symbols.name r.owner
  | none => []

/-- The names of parameters, and those that the comment after them shows. -/
def binderWords (info : Anchor) (ps : List Param) (bs : List SymbolId) : List String :=
  (ps.map Param.symbol ++ bs).map l.symbols.name ++ l.notedNames info

/-- The names in the head of a clause. -/
def clauseWords (c : Clause) : List String :=
  (c.operation :: c.resume :: c.params.map Param.symbol).map l.symbols.name

/-- The names and the effect in the heads of a handler and its clauses. -/
def handlerWords (h : Handler) : List String :=
  l.symbols.name h.capability :: h.effect :: h.clauses.flatMap l.clauseWords

/-- The names, effects and literals that a node brings into a listing. -/
def words : Tree → List String
  | .module _ name _ _ => [name]
  | .function info symbol ps bs _ _ => l.symbols.name symbol :: l.binderWords info ps bs
  | .lambda info _ ps bs _ _ _ | .blockArg info ps bs _ => l.binderWords info ps bs
  | .handle info _ handlers _ => handlers.flatMap l.handlerWords ++ l.notedNames info
  | .cell _ symbol _ | .binding _ symbol _ _ | .ref _ symbol | .assign _ symbol _ =>
    [l.symbols.name symbol]
  | .literal _ value => [value]
  | _ => []

end Listing

/-- The text of the type, if there is one, has no line break. -/
def Ty.OneLine (type : Ty) : Prop := ∀ s, type.text = .ok s → Unbroken s

namespace Listing

open Printer

section
variable {l : Listing}

theorem unbroken_regionNote {info : Anchor} (h : ∀ w ∈ l.notedNames info, Unbroken w) :
    Unbroken (l.regionNote info) := by
  unfold notedNames at h
  unfold regionNote
  split
  · next s hs =>
    rw [hs] at h
    have hnames : Unbroken (String.intercalate ", "
        (s.elems.map fun r => l.symbols.name r.owner)) := unbroken_commas h
    have hset := (Unbroken.append (by decide : Unbroken "\x7b") hnames).append
      (by decide : Unbroken "\x7d")
    exact (Unbroken.append (by decide) hset).append (by decide)
  · decide

theorem unbroken_blocks {bs : List SymbolId} (h : ∀ b ∈ bs, Unbroken (l.symbols.name b)) :
    Unbroken (l.blocks bs) := by
  unfold blocks
  split
  · decide
  · have hnames : Unbroken (String.intercalate ", " (bs.map l.symbols.name)) :=
      unbroken_commas (List.forall_mem_map.2 h)
    exact (Unbroken.append (by decide) hnames).append (by decide)

theorem unbroken_of_binderWords {info : Anchor} {ps : List Param} {bs : List SymbolId}
    (h : ∀ w ∈ l.binderWords info ps bs, Unbroken w) :
    (∀ p ∈ ps, Unbroken (l.symbols.name p.symbol)) ∧ Unbroken (l.blocks bs) ∧
    Unbroken (l.regionNote info) := by
  obtain ⟨hnames, hnoted⟩ := List.forall_mem_append.1 h
  obtain ⟨hparams, hblocks⟩ := List.forall_mem_append.1 (List.forall_mem_map.1 hnames)
  exact ⟨fun p hp => hparams p.symbol (List.mem_map_of_mem hp), unbroken_blocks hblocks,
    unbroken_regionNote hnoted⟩

theorem steady_typeNote {type : Ty} (h : type.OneLine) : Steady (typeNote type) := by
  refine Steady.when _ ?_
  cases htext : type.text with
  | error fault =>
    -- nothing is written before the fault, so it does not depend on the level
    exact ⟨.error fault, fun k written => rfl⟩
  | ok s =>
    have hnote : Unbroken (": " ++ s) := Unbroken.append (by decide) (h s htext)
    exact steady_write hnote

theorem steady_params {ps : List Param} (hnames : ∀ p ∈ ps, Unbroken (l.symbols.name p.symbol))
    (htypes : ∀ p ∈ ps, p.type.OneLine) : Steady (l.params ps) := by
  have hparams : ∀ m ∈ ps.map l.param, Steady m := by
    refine List.forall_mem_map.2 fun p hp => ?_
    exact (steady_write (hnames p hp)).seq (steady_typeNote (htypes p hp))
  exact (steady_write (by decide)).seq ((steady_separated hparams).seq (steady_write (by decide)))

theorem steady_clause {c : Clause} {body : Printer Unit}
    (hwords : ∀ w ∈ l.clauseWords c, Unbroken w) (htypes : ∀ p ∈ c.params, p.type.OneLine)
    (hbody : Steady body) :
    Steady (l.clause c.operation c.params c.resume body) := by
  have hnames := List.forall_mem_map.1 hwords
  obtain ⟨hoperation, hnames⟩ := List.forall_mem_cons.1 hnames
  obtain ⟨hresume, hnames⟩ := List.forall_mem_cons.1 hnames
  have hparams := steady_params (fun p hp => hnames p.symbol (List.mem_map_of_mem hp)) htypes
  have hresumed := (Unbroken.append (by decide : Unbroken " resume ") hresume).append
    (by decide : Unbroken " = ")
  exact (steady_write (Unbroken.append (by decide) hoperation)).seq
    (hparams.seq ((steady_write hresumed).seq hbody))

theorem steady_handler {capability : SymbolId} {effect : String} {clauses : List (Printer Unit)}
    (hname : Unbroken (l.symbols.name capability)) (heffect : Unbroken effect)
    (hclauses : ∀ m ∈ clauses, Steady m) : Steady (l.handler capability effect clauses) := by
  have hhead := ((hname.append (by decide : Unbroken ": ")).append heffect).append
    (by decide : Unbroken " \x7b")
  refine (steady_write hhead).seq ((steady_each steady_startLine hclauses).nested.seq ?_)
  exact (steady_startLine.when _).seq (steady_write (by decide))

/-- A node keeps to its level if all trees below it do. -/
theorem steady_node {t : Tree}
    (hmodule : ∀ info name defs imports, t ≠ .module info name defs imports)
    (hwords : ∀ w ∈ l.words t, Unbroken w) (htypes : ∀ type ∈ t.shownTypes, type.OneLine)
    (hbelow : ∀ c ∈ t.tasks, Steady (l.print c.tree)) : Steady (l.print t) := by
  cases t with
  | hole => exact steady_write (by decide)
  | module info name defs imports => exact absurd rfl (hmodule info name defs imports)
  | function info symbol ps bs result body =>
    obtain ⟨hname, hwords⟩ := List.forall_mem_cons.1 hwords
    obtain ⟨hparams, hblocks, hnote⟩ := unbroken_of_binderWords hwords
    obtain ⟨hresult, htypes⟩ := List.forall_mem_cons.1 htypes
    rw [print]
    refine (steady_write (Unbroken.append (by decide) hname)).seq ?_
    refine (steady_params hparams (List.forall_mem_map.1 htypes)).seq
      ((steady_write hblocks).seq ?_)
    refine (steady_typeNote hresult).seq ((steady_write (hnote.append (by decide))).seq ?_)
    exact hbelow body.task List.mem_cons_self
  | lambda info symbol ps bs result slot body =>
    obtain ⟨hparams, hblocks, hnote⟩ := unbroken_of_binderWords hwords
    rw [print]
    refine (steady_write (by decide)).seq
      ((steady_params hparams (List.forall_mem_map.1 htypes)).seq ?_)
    refine (steady_write ((hblocks.append hnote).append (by decide))).seq ?_
    exact hbelow body.task List.mem_cons_self
  | blockArg info ps bs body =>
    obtain ⟨hparams, hblocks, hnote⟩ := unbroken_of_binderWords hwords
    have hhead := (steady_params hparams (List.forall_mem_map.1 htypes)).seq
      (steady_write (hblocks.append (by decide : Unbroken " => ")))
    rw [print]
    refine (steady_write (by decide)).seq ((hhead.when _).seq ?_)
    exact (hbelow body.task List.mem_cons_self).seq
      (steady_write (Unbroken.append (by decide) hnote))
  | handle info body handlers type =>
    obtain ⟨hwords, hnoted⟩ := List.forall_mem_append.1 hwords
    obtain ⟨hbody, hclauses⟩ := List.forall_mem_cons.1 hbelow
    rw [print, printHandlers_eq_map]
    refine (steady_write (by decide)).seq
      (hbody.seq ((steady_write (unbroken_regionNote hnoted)).seq ?_))
    refine steady_each (steady_write (by decide)) (List.forall_mem_map.2 fun h hh => ?_)
    have hwords : ∀ w ∈ l.handlerWords h, Unbroken w :=
      fun w hw => hwords w (List.mem_flatMap_of_mem hh hw)
    obtain ⟨hname, hwords⟩ := List.forall_mem_cons.1 hwords
    obtain ⟨heffect, hwords⟩ := List.forall_mem_cons.1 hwords
    rw [printClauses_eq_map]
    refine steady_handler hname heffect (List.forall_mem_map.2 fun c hc => steady_clause ?_ ?_ ?_)
    · exact fun w hw => hwords w (List.mem_flatMap_of_mem hc hw)
    · intro p hp
      exact htypes _ (List.mem_flatMap_of_mem hh
        (List.mem_flatMap_of_mem hc (List.mem_map_of_mem hp)))
    · exact hclauses ⟨some c.resume, c.body⟩ (List.mem_flatMap_of_mem hh (List.mem_map_of_mem hc))
  | cell info symbol init =>
    have hname := List.forall_mem_singleton.1 hwords
    rw [print]
    refine (steady_write ((Unbroken.append (by decide) hname).append (by decide))).seq ?_
    exact hbelow init.task List.mem_cons_self
  | binding info symbol type init =>
    have hname := List.forall_mem_singleton.1 hwords
    rw [print]
    refine (steady_write ((Unbroken.append (by decide) hname).append (by decide))).seq ?_
    exact hbelow init.task List.mem_cons_self
  | block info stmts =>
    have hstmts : ∀ m ∈ stmts.map l.print, Steady m :=
      List.forall_mem_map.2 fun t ht => hbelow t.task (List.mem_map_of_mem ht)
    rw [print, printEach_eq_map]
    refine (steady_write (by decide)).seq ((steady_each steady_startLine hstmts).nested.seq ?_)
    exact steady_startLine.seq (steady_write (by decide))
  | ref info symbol => exact steady_write (List.forall_mem_singleton.1 hwords)
  | assign info symbol value =>
    have hname := List.forall_mem_singleton.1 hwords
    rw [print]
    exact (steady_write (hname.append (by decide))).seq (hbelow value.task List.mem_cons_self)
  | call info callee args blockArgs type =>
    obtain ⟨hcallee, hbelow⟩ := List.forall_mem_cons.1 hbelow
    obtain ⟨hargs, hblocks⟩ := List.forall_mem_append.1 (List.forall_mem_map.1 hbelow)
    rw [print, printEach_eq_map, printEach_eq_map]
    refine Steady.seq hcallee ((steady_write (by decide)).seq ?_)
    refine (steady_separated (List.forall_mem_map.2 hargs)).seq ((steady_write (by decide)).seq ?_)
    exact steady_each (steady_write (by decide)) (List.forall_mem_map.2 hblocks)
  | ret info value type =>
    rw [print]
    exact (steady_write (by decide)).seq (hbelow value.task List.mem_cons_self)
  | literal info value => exact steady_write (List.forall_mem_singleton.1 hwords)
  | cond info condition consequence alternative =>
    obtain ⟨hcondition, hbelow⟩ := List.forall_mem_cons.1 hbelow
    obtain ⟨hconsequence, hbelow⟩ := List.forall_mem_cons.1 hbelow
    have halternative := List.forall_mem_singleton.1 hbelow
    rw [print]
    refine (steady_write (by decide)).seq
      (Steady.seq hcondition ((steady_write (by decide)).seq ?_))
    refine Steady.seq hconsequence (Steady.when _ ?_)
    exact (steady_write (by decide)).seq halternative

/-- A node that is no module and brings no line break into a listing in its words and types. -/
structure NoBreaks (l : Listing) (n : Tree) : Prop where
  no_module : ∀ info name defs imports, n ≠ .module info name defs imports
  words : ∀ w ∈ l.words n, Unbroken w
  types : ∀ type ∈ n.shownTypes, ∀ s, type.text = .ok s → Unbroken s

theorem steady_print (t : Tree) (hnodes : ∀ n ∈ t.nodes, l.NoBreaks n) : Steady (l.print t) := by
  induction t using Tree.induction_on_tasks with
  | step t ih =>
    cases hpresent : t.isHole with
    | true =>
      cases t with
      | hole => exact steady_write (by decide)
      | _ => cases hpresent
    | false =>
      obtain ⟨hmodule, hwords, htypes⟩ := hnodes t (Tree.mem_nodes.2 ⟨hpresent, .inl rfl⟩)
      refine steady_node hmodule hwords htypes fun c hc => ih c hc fun n hn => ?_
      exact hnodes n (Tree.mem_nodes.2 ⟨hpresent, .inr ⟨c, hc, hn⟩⟩)

end

/-- A tree without modules and without line breaks of its own is written `k` levels in as it is at
the margin, with `k` levels after every line break, and the pen is left `k` levels in. It is written
to the end if its types can be. -/
theorem print_indented (l : Listing) {t : Tree} (h : ∀ n ∈ t.nodes, l.NoBreaks n) :
    (∀ k written, (l.print t).run ⟨k, written⟩ =
      (l.text t).map fun text => ((), ⟨k, written ++ indentText k text⟩)) ∧
    (t.Showable → ∃ text, l.text t = .ok text) := by
  obtain ⟨r, hprints⟩ := steady_print t h
  have htext : l.text t = r := by
    rw [text, hprints 0 ""]
    cases r with
    | error fault => rfl
    | ok text =>
      show Except.ok ("" ++ indentText 0 text) = Except.ok text
      rw [indentText_zero, String.empty_append]
  refine ⟨?_, (l.needs_text t).exists_iff.2⟩
  rw [htext]
  exact hprints

namespace TwoHandlers

def symbols : SymbolTable :=
  ⟨[{ name := "exc" }, { name := "raise" }, { name := "resume" }, { name := "x" }]⟩

/-- A block with two handlers around another block: one with a clause that is a block again, and one
without clauses. -/
def tree : Tree :=
  .block ⟨6, {}⟩ [.handle ⟨5, {}⟩ (.block ⟨2, {}⟩ [.literal ⟨1, {}⟩ "0"])
    [⟨{}, 1, "Exc", [⟨2, [⟨4, .con "Int" ""⟩], 3, .block ⟨4, {}⟩ [.ref ⟨3, {}⟩ 4]⟩]⟩,
      ⟨{}, 4, "Log", []⟩] .absent]

def listing : Listing :=
  { symbols, annotations := some (Annotations.annotateNode {} 5 (.singleton 1)) }

def atMargin : String :=
  "\x7b\n    try \x7b\n        0\n    \x7d /* \x7bexc\x7d */ with exc: Exc \x7b\n" ++
  "        def raise(x: Int) resume resume = \x7b\n            x\n        \x7d\n    \x7d with x: Log \x7b\x7d\n\x7d"

theorem shownTypes_eq : ∀ n ∈ tree.nodes, ∀ type ∈ n.shownTypes, type.text = .ok "Int" := by
  simp [tree, Tree.nodes, Tree.walk, Tree.walkAll, Tree.walkHandlers, Tree.walkClauses, Tree.visit,
    Tree.shownTypes, Ty.text, Ty.qualified]

theorem noBreaks : ∀ n ∈ tree.nodes, listing.NoBreaks n := by
  have hwords : ∀ n ∈ tree.nodes, ∀ w ∈ listing.words n, Unbroken w := by decide +kernel
  have hkind : ∀ n ∈ tree.nodes, n.head?.map Prod.fst ≠ some .module := by decide
  intro n hn
  refine ⟨?_, hwords n hn, fun type htype s hs => ?_⟩
  · rintro info name defs imports rfl
    exact hkind _ hn rfl
  · rw [shownTypes_eq n hn type htype] at hs
    cases hs
    decide

end TwoHandlers

open TwoHandlers in
/-- Two levels in, behind the beginning of a line. -/
theorem print_indented_twoHandlers : (∀ n ∈ tree.nodes, listing.NoBreaks n) ∧ tree.Showable ∧
    listing.text tree = .ok atMargin ∧
    (listing.print tree).run ⟨2, "val y = "⟩ =
      .ok ((), ⟨2, "val y = " ++ indentText 2 atMargin⟩) := by
  obtain ⟨hindented, hfinishes⟩ := print_indented listing noBreaks
  have hshowable : tree.Showable := fun n hn type htype _ => ⟨"Int", shownTypes_eq n hn type htype⟩
  obtain ⟨text, htext⟩ := hfinishes hshowable
  have hmargin : (listing.text tree).toOption = some atMargin := by decide +kernel
  rw [htext] at hmargin
  cases hmargin
  refine ⟨noBreaks, hshowable, htext, ?_⟩
  rw [hindented, htext]
  rfl

end Listing

end RegionCapture
