import RegionCapture.Proofs.Carriers

/-!
# Reading a printed trace

A printed trace has one line for each item, and how deep the item is nested shows only in the
indentation of its line (`Trace.text_eq_joinLines`). If no item has a line break in it, the lines
can be told apart (`eq_of_joinLines`). The level of a line is that of its dash, whatever its message
begins with (`TraceLine.text_injective`), and the items below an item end at the first line that is
not indented deeper (`alike_of_traceLines`). So a printed trace tells the whole trace but for where
the place ends and the message begins in a line. Main statement `Trace.text_determines`.
-/

namespace RegionCapture

/-! ## Lines -/

/-- Lines of text, each with its line break. -/
def joinLines (lines : List String) : String := String.join (lines.map (· ++ "\n"))

theorem append_cons_inj_of_not_mem {α : Type} {a : α} {xs ys zs ws : List α} (hxs : a ∉ xs)
    (hys : a ∉ ys) (h : xs ++ a :: zs = ys ++ a :: ws) : xs = ys ∧ zs = ws := by
  induction xs generalizing ys with
  | nil =>
    cases ys with
    | nil => exact ⟨rfl, List.tail_eq_of_cons_eq h⟩
    | cons y ys =>
      have hy : a = y := List.head_eq_of_cons_eq h
      exact absurd List.mem_cons_self (hy ▸ hys)
  | cons x xs ih =>
    cases ys with
    | nil =>
      have hx : x = a := List.head_eq_of_cons_eq h
      exact absurd List.mem_cons_self (hx ▸ hxs)
    | cons y ys =>
      rw [List.cons_append, List.cons_append, List.cons_eq_cons] at h
      obtain ⟨rfl, h⟩ := h
      obtain ⟨rfl, rfl⟩ := ih (List.not_mem_of_not_mem_cons hxs)
        (List.not_mem_of_not_mem_cons hys) h
      exact ⟨rfl, rfl⟩

theorem toList_joinLines_cons (line : String) (lines : List String) :
    (joinLines (line :: lines)).toList = line.toList ++ '\n' :: (joinLines lines).toList := by
  simp [joinLines]

/-- A text can be taken apart into its lines. -/
theorem eq_of_joinLines {xs ys : List String} (hxs : ∀ x ∈ xs, '\n' ∉ x.toList)
    (hys : ∀ y ∈ ys, '\n' ∉ y.toList) (h : joinLines xs = joinLines ys) : xs = ys := by
  rw [← String.toList_inj] at h
  induction xs generalizing ys with
  | nil =>
    cases ys with
    | nil => rfl
    | cons y ys => simp [joinLines] at h
  | cons x xs ih =>
    cases ys with
    | nil => simp [joinLines] at h
    | cons y ys =>
      obtain ⟨hx, hxs⟩ := List.forall_mem_cons.1 hxs
      obtain ⟨hy, hys⟩ := List.forall_mem_cons.1 hys
      rw [toList_joinLines_cons, toList_joinLines_cons] at h
      obtain ⟨hfirst, hrest⟩ := append_cons_inj_of_not_mem hx hy h
      rw [String.toList_inj.1 hfirst, ih hxs hys hrest]

/-- A line of a trace: how deep its item is nested, and what stands there. -/
structure TraceLine where
  level : Nat
  label : String

namespace TraceLine

def text (l : TraceLine) : String := replicateText (l.level + 1) "  " ++ "- " ++ l.label

theorem toList_text (l : TraceLine) :
    l.text.toList = List.replicate ((l.level + 1) * 2) ' ' ++ '-' :: ' ' :: l.label.toList := by
  have hindent : (replicateText (l.level + 1) "  ").toList =
      List.replicate ((l.level + 1) * 2) ' ' := by
    rw [replicateText, String.toList_join, List.flatMap_replicate]
    exact List.flatten_replicate_replicate (m := 2)
  simp [text, hindent]

/-- The level of a line is that of its dash, whatever characters the label begins with. -/
theorem text_injective : Function.Injective text := by
  intro l l' h
  rw [← String.toList_inj, toList_text, toList_text] at h
  have hblank : ∀ n, '-' ∉ List.replicate n ' ' := by simp
  obtain ⟨hindent, hlabel⟩ := append_cons_inj_of_not_mem (hblank _) (hblank _) h
  have hlength : (l.level + 1) * 2 = (l'.level + 1) * 2 := by
    simpa only [List.length_replicate] using congrArg List.length hindent
  have hlevel : l.level = l'.level := by omega
  have hlabel : l.label = l'.label := String.toList_inj.1 (List.tail_eq_of_cons_eq hlabel)
  cases l
  cases l'
  rw [TraceLine.mk.injEq]
  exact ⟨hlevel, hlabel⟩

theorem newline_not_mem_text {l : TraceLine} (h : '\n' ∉ l.label.toList) :
    '\n' ∉ l.text.toList := by
  rw [toList_text]
  simp [h]

end TraceLine

/-! ## The lines of a trace -/

/-- What is printed of an item itself: its place and its message. -/
def TraceItem.label (i : TraceItem) : String := i.token.position ++ ": " ++ i.message

mutual
/-- The lines of an item that stands `depth` levels deep. -/
def TraceItem.lines (depth : Nat) : TraceItem → List TraceLine
  | i@⟨_, _, children⟩ => ⟨depth, i.label⟩ :: traceLines (depth + 1) children

/-- The lines of items that stand `depth` levels deep. -/
def traceLines (depth : Nat) : List TraceItem → List TraceLine
  | [] => []
  | i :: is => i.lines depth ++ traceLines depth is
end

mutual
theorem TraceItem.render_eq_joinLines (depth : Nat) : ∀ i : TraceItem,
    i.render .plain depth = joinLines ((i.lines depth).map TraceLine.text)
  | ⟨token, message, children⟩ => by
    rw [TraceItem.render, renderTrace_eq_joinLines (depth + 1) children, TraceItem.lines]
    simp [joinLines, TraceLine.text, TraceItem.label, Style.position, Style.paint, Style.plain,
      String.append_assoc]

theorem renderTrace_eq_joinLines (depth : Nat) : ∀ is : List TraceItem,
    renderTrace .plain depth is = joinLines ((traceLines depth is).map TraceLine.text)
  | [] => rfl
  | i :: is => by
    rw [renderTrace, i.render_eq_joinLines depth, renderTrace_eq_joinLines depth is, traceLines]
    simp [joinLines]
end

mutual
theorem TraceItem.length_lines (depth : Nat) : ∀ i : TraceItem, (i.lines depth).length = i.size
  | ⟨token, message, children⟩ => by
    rw [TraceItem.lines, List.length_cons, length_traceLines (depth + 1) children, TraceItem.size,
      Nat.add_comm]

theorem length_traceLines (depth : Nat) :
    ∀ is : List TraceItem, (traceLines depth is).length = traceSize is
  | [] => rfl
  | i :: is => by
    rw [traceLines, List.length_append, i.length_lines depth, length_traceLines depth is, traceSize]
end

mutual
theorem TraceItem.map_label_lines (depth : Nat) : ∀ i : TraceItem,
    (i.lines depth).map TraceLine.label = i.preorder.map TraceItem.label
  | ⟨token, message, children⟩ => by
    rw [TraceItem.lines, TraceItem.preorder, List.map_cons, List.map_cons,
      map_label_traceLines (depth + 1) children]

theorem map_label_traceLines (depth : Nat) : ∀ is : List TraceItem,
    (traceLines depth is).map TraceLine.label = (preorderTrace is).map TraceItem.label
  | [] => rfl
  | i :: is => by
    rw [traceLines, preorderTrace, List.map_append, List.map_append, i.map_label_lines depth,
      map_label_traceLines depth is]
end

/-! ## Traces with the same lines -/

mutual
/-- The items have the same label, and what is nested below them is alike. -/
def TraceItem.Alike : TraceItem → TraceItem → Prop
  | i@⟨_, _, children⟩, j@⟨_, _, children'⟩ => i.label = j.label ∧ Trace.Alike children children'

/-- There are as many items in both lists, and they are alike one by one. -/
def Trace.Alike : List TraceItem → List TraceItem → Prop
  | [], [] => True
  | i :: is, j :: js => i.Alike j ∧ Trace.Alike is js
  | _, _ => False
end

/-- The first line, if there is any, is above the level. -/
def StartsAbove (depth : Nat) (lines : List TraceLine) : Prop := ∀ l ∈ lines.head?, l.level < depth

theorem startsAbove_nil (depth : Nat) : StartsAbove depth [] := by simp [StartsAbove]

theorem StartsAbove.traceLines_append {depth : Nat} {rest : List TraceLine}
    (h : StartsAbove depth rest) (is : List TraceItem) :
    StartsAbove (depth + 1) (traceLines depth is ++ rest) := by
  cases is with
  | nil =>
    intro l hl
    exact Nat.lt_succ_of_lt (h l hl)
  | cons i is =>
    intro l hl
    cases i with
    | mk token message children =>
      simp only [traceLines, TraceItem.lines, List.cons_append, List.head?_cons,
        Option.mem_some] at hl
      rw [← hl]
      exact Nat.lt_succ_self depth

/-- Lines of an item do not go on with a line above its level. -/
theorem StartsAbove.ne_traceLines_cons {depth : Nat} {rest : List TraceLine}
    (h : StartsAbove depth rest) (i : TraceItem) (is : List TraceItem) (rest' : List TraceLine) :
    rest ≠ traceLines depth (i :: is) ++ rest' := by
  rintro rfl
  cases i with
  | mk token message children =>
    have hlevel := h ⟨depth,
      TraceItem.label ⟨token, message, children⟩⟩ (by simp [traceLines, TraceItem.lines])
    exact absurd hlevel (Nat.lt_irrefl depth)

mutual
/-- The items below an item end where the lines are not indented deeper, so their lines tell how far
they go. -/
theorem TraceItem.alike_of_lines {depth : Nat} {rest rest' : List TraceLine}
    (hrest : StartsAbove (depth + 1) rest) (hrest' : StartsAbove (depth + 1) rest') :
    ∀ {i j : TraceItem}, i.lines depth ++ rest = j.lines depth ++ rest' →
    i.Alike j ∧ rest = rest'
  | ⟨token, message, children⟩, ⟨token', message', children'⟩, h => by
    rw [TraceItem.lines, TraceItem.lines, List.cons_append, List.cons_append, List.cons_eq_cons,
      TraceLine.mk.injEq] at h
    obtain ⟨⟨-, hlabel⟩, hbelow⟩ := h
    obtain ⟨hchildren, hrests⟩ := alike_of_traceLines hrest hrest' hbelow
    rw [TraceItem.Alike]
    exact ⟨⟨hlabel, hchildren⟩, hrests⟩

theorem alike_of_traceLines {depth : Nat} {rest rest' : List TraceLine}
    (hrest : StartsAbove depth rest) (hrest' : StartsAbove depth rest') :
    ∀ {is js : List TraceItem},
    traceLines depth is ++ rest = traceLines depth js ++ rest' → Trace.Alike is js ∧ rest = rest'
  | [], [], h => by
    rw [Trace.Alike]
    exact ⟨trivial, h⟩
  | [], j :: js, h => absurd h (hrest.ne_traceLines_cons j js rest')
  | i :: is, [], h => absurd h.symm (hrest'.ne_traceLines_cons i is rest)
  | i :: is, j :: js, h => by
    rw [traceLines, traceLines, List.append_assoc, List.append_assoc] at h
    obtain ⟨hfirst, h⟩ := TraceItem.alike_of_lines (hrest.traceLines_append is)
      (hrest'.traceLines_append js) h
    obtain ⟨hothers, hrests⟩ := alike_of_traceLines hrest hrest' h
    rw [Trace.Alike]
    exact ⟨⟨hfirst, hothers⟩, hrests⟩
end

mutual
theorem TraceItem.Alike.lines_eq {depth : Nat} :
    ∀ {i j : TraceItem}, i.Alike j → i.lines depth = j.lines depth
  | ⟨token, message, children⟩, ⟨token', message', children'⟩, h => by
    rw [TraceItem.Alike] at h
    rw [TraceItem.lines, TraceItem.lines, h.1, Trace.Alike.traceLines_eq h.2]

theorem Trace.Alike.traceLines_eq {depth : Nat} : ∀ {is js : List TraceItem}, Trace.Alike is js →
    traceLines depth is = traceLines depth js
  | [], [], _ => rfl
  | [], _ :: _, h | _ :: _, [], h => by simp [Trace.Alike] at h
  | i :: is, j :: js, h => by
    rw [Trace.Alike] at h
    rw [traceLines, traceLines, h.1.lines_eq, Trace.Alike.traceLines_eq h.2]
end

namespace Trace

/-- No item of the trace has a line break in its place or its message. -/
def OneLiners (t : Trace) : Prop :=
  ∀ i ∈ t.preorder, '\n' ∉ i.token.position.toList ∧ '\n' ∉ i.message.toList

theorem text_eq_joinLines (t : Trace) : t.text = joinLines ((traceLines 0 t).map TraceLine.text) :=
  renderTrace_eq_joinLines 0 t

theorem OneLiners.newline_not_mem {t : Trace} (h : t.OneLiners) :
    ∀ line ∈ (traceLines 0 t).map TraceLine.text,
    '\n' ∉ line.toList := by
  intro line hline
  obtain ⟨l, hl, rfl⟩ := List.mem_map.1 hline
  have hlabel : l.label ∈ (preorderTrace t).map TraceItem.label := by
    rw [← map_label_traceLines 0 t]
    exact List.mem_map_of_mem hl
  obtain ⟨i, hi, hlabel⟩ := List.mem_map.1 hlabel
  obtain ⟨hposition, hmessage⟩ := h i hi
  refine TraceLine.newline_not_mem_text ?_
  rw [← hlabel]
  simp [TraceItem.label, hposition, hmessage]

/-- Two traces without line breaks of their own are printed alike only if they have the same shape
and the same label at every item; and a printed trace has a line for each of its items. -/
theorem text_determines {t u : Trace} (ht : t.OneLiners) (hu : u.OneLiners) :
    (t.text = u.text ↔ Trace.Alike t u) ∧
      ∃ lines : List String, lines.length = t.size ∧ (∀ line ∈ lines, '\n' ∉ line.toList) ∧
        t.text = joinLines lines := by
  refine ⟨⟨fun h => ?_, fun h => ?_⟩, (traceLines 0 t).map TraceLine.text, ?_, ht.newline_not_mem,
    t.text_eq_joinLines⟩
  · rw [text_eq_joinLines, text_eq_joinLines] at h
    have hlines := (List.map_inj_right TraceLine.text_injective).1
      (eq_of_joinLines ht.newline_not_mem hu.newline_not_mem h)
    have hall : traceLines 0 t ++ [] = traceLines 0 u ++ [] := by rw [hlines]
    exact (alike_of_traceLines (startsAbove_nil 0) (startsAbove_nil 0) hall).1
  · rw [text_eq_joinLines, text_eq_joinLines, h.traceLines_eq]
  · rw [List.length_map, length_traceLines]
    rfl

/-- Two items side by side. The message of the second one begins like the line of a nested item. -/
def sideBySide : Trace := [⟨{ file := "f" }, "1:2: x", []⟩, ⟨{}, "    - y", []⟩]

/-- The same labels with the second item below the first one, whose place ends with what was part of
a message. -/
def oneBelow : Trace := [⟨{ file := "f: 1:2" }, "x", [⟨{}, "    - y", []⟩]⟩]

/-- The labels are the same, so only the shapes can be what makes the texts differ. -/
theorem text_determines_sideBySide : sideBySide.OneLiners ∧ oneBelow.OneLiners ∧
    sideBySide.preorder.map TraceItem.label = oneBelow.preorder.map TraceItem.label ∧
    sideBySide.text ≠ oneBelow.text ∧
    ∃ lines, lines.length = 2 ∧ (∀ line ∈ lines, '\n' ∉ line.toList) ∧
      sideBySide.text = joinLines lines := by
  have hside : sideBySide.OneLiners := by
    unfold OneLiners
    decide +kernel
  have hbelow : oneBelow.OneLiners := by
    unfold OneLiners
    decide +kernel
  obtain ⟨hiff, hlines⟩ := text_determines hside hbelow
  have hunlike : ¬ Alike sideBySide oneBelow := by simp [sideBySide, oneBelow, Alike]
  exact ⟨hside, hbelow, rfl, mt hiff.1 hunlike, hlines⟩

end Trace

end RegionCapture
