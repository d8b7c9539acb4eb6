import RegionCapture.Proofs.Search

/-!
# Types that can be read

A type can be read over a table if its slots hold no variable of another table and no part is absent
where one has to be there (`Ty.Readable`). Reading goes on being possible while the table grows
(`Ty.Readable.mono`), and everything that the check asks of such a type has an answer: its regions,
what a substitution makes of it, its text, and so also the traces of how a region reaches a tree
whose types can be read (`Provenance.exists_explain`).
-/

namespace RegionCapture

theorem exists_bind_ok {ε α β : Type} {x : Except ε α} {f : α → Except ε β} (hx : ∃ a, x = .ok a)
    (hf : ∀ a, ∃ b, f a = .ok b) : ∃ b, (x >>= f) = .ok b := by
  obtain ⟨a, ha⟩ := hx
  obtain ⟨b, hb⟩ := hf a
  exact ⟨b, bind_eq_ok.2 ⟨a, ha, hb⟩⟩

namespace Ty

mutual
/-- The condition holds of what every slot holds, also of those of parameters and blocks. -/
def EverySlot (C : Term → Prop) : Ty → Prop
  | absent => True
  | con _ _ => True
  | app ctor args => ctor.EverySlot C ∧ EverySlots C args
  | tuple elems => EverySlots C elems
  | fn params blocks result capture =>
    EverySlots C params ∧ EverySlots C blocks ∧ result.EverySlot C ∧
      ∀ term, capture = some term → C term

/-- The condition holds of what every slot of every type in a list holds. -/
def EverySlots (C : Term → Prop) : List Ty → Prop
  | [] => True
  | t :: ts => t.EverySlot C ∧ EverySlots C ts
end

mutual
/-- No part of an application or a tuple is absent. Parameters and blocks are not looked at. -/
def Whole : Ty → Prop
  | absent => True
  | con _ _ => True
  | app ctor args => ctor.isAbsent = false ∧ ctor.Whole ∧ Wholes args
  | tuple elems => Wholes elems
  | fn _ _ result _ => result.Whole

/-- No type in a list is absent, nor a part of one of them. -/
def Wholes : List Ty → Prop
  | [] => True
  | t :: ts => t.isAbsent = false ∧ t.Whole ∧ Wholes ts
end

/-- The type has only variables of the table, and no absent part where one has to be there. -/
structure Readable (table : Table) (type : Ty) : Prop where
  covered : type.EverySlot table.Covers
  whole : type.Whole

variable {C : Term → Prop} {table : Table} {type : Ty}

mutual
theorem EverySlot.imp {C D : Term → Prop} (h : ∀ term, C term → D term) :
    ∀ {type : Ty}, type.EverySlot C →
    type.EverySlot D
  | absent, _ => trivial
  | con _ _, _ => trivial
  | app ctor args, hall => by
    simp only [EverySlot] at hall ⊢
    exact ⟨hall.1.imp h, hall.2.imp h⟩
  | tuple elems, hall => by
    simp only [EverySlot] at hall ⊢
    exact hall.imp h
  | fn params blocks result capture, hall => by
    simp only [EverySlot] at hall ⊢
    exact ⟨hall.1.imp h, hall.2.1.imp h, hall.2.2.1.imp h,
      fun term hterm => h term (hall.2.2.2 term hterm)⟩

theorem EverySlots.imp {C D : Term → Prop} (h : ∀ term, C term → D term) :
    ∀ {types : List Ty}, EverySlots C types →
    EverySlots D types
  | [], _ => trivial
  | type :: types, hall => by
    simp only [EverySlots] at hall ⊢
    exact ⟨hall.1.imp h, hall.2.imp h⟩
end

/-! ## Slots -/

mutual
theorem exists_slots :
    ∀ {type : Ty}, type.Whole → type.isAbsent = false → ∃ terms, type.slots = .ok terms
  | con _ _, _, _ => ⟨[], rfl⟩
  | app ctor args, h, _ => by
    simp only [Whole] at h
    rw [slots]
    exact exists_bind_ok (exists_slots h.2.1 h.1) fun _ =>
      exists_bind_ok (exists_slotsAll h.2.2) fun _ => ⟨_, rfl⟩
  | tuple elems, h, _ => by
    simp only [Whole] at h
    rw [slots]
    exact exists_slotsAll h
  | fn _ _ result capture, h, _ => by
    simp only [Whole] at h
    cases habsent : result.isAbsent with
    | true => exact ⟨_, slots_fn.2 ⟨[], rfl, .inl ⟨habsent, rfl⟩⟩⟩
    | false =>
      obtain ⟨inner, hinner⟩ := exists_slots h habsent
      exact ⟨_, slots_fn.2 ⟨inner, rfl, .inr ⟨habsent, hinner⟩⟩⟩

theorem exists_slotsAll : ∀ {types : List Ty}, Wholes types → ∃ terms, slotsAll types = .ok terms
  | [], _ => ⟨[], rfl⟩
  | type :: types, h => by
    simp only [Wholes] at h
    rw [slotsAll]
    exact exists_bind_ok (exists_slots h.2.1 h.1) fun _ =>
      exists_bind_ok (exists_slotsAll h.2.2) fun _ => ⟨_, rfl⟩
end

mutual
theorem EverySlot.of_mem_slots :
    ∀ {type : Ty} {terms : List Term}, type.EverySlot C → type.slots = .ok terms →
    ∀ term ∈ terms, C term
  | con _ _, _, _, h => by
    cases h
    simp
  | app ctor args, _, hall, h => by
    simp only [EverySlot] at hall
    obtain ⟨first, hfirst, rest, hrest, rfl⟩ := slots_app.1 h
    exact List.forall_mem_append.2 ⟨hall.1.of_mem_slots hfirst, hall.2.of_mem_slotsAll hrest⟩
  | tuple elems, _, hall, h => by
    simp only [EverySlot] at hall
    rw [slots] at h
    exact hall.of_mem_slotsAll h
  | fn _ _ result capture, _, hall, h => by
    simp only [EverySlot] at hall
    obtain ⟨inner, rfl, hinner⟩ := slots_fn.1 h
    refine List.forall_mem_append.2
      ⟨fun term hterm => hall.2.2.2 term (Option.mem_toList.1 hterm), ?_⟩
    rcases hinner with ⟨-, rfl⟩ | ⟨-, hslots⟩
    · simp
    · exact hall.2.2.1.of_mem_slots hslots

theorem EverySlots.of_mem_slotsAll : ∀ {types : List Ty} {terms : List Term}, EverySlots C types →
    slotsAll types = .ok terms → ∀ term ∈ terms, C term
  | [], _, _, h => by
    cases h
    simp
  | type :: types, _, hall, h => by
    simp only [EverySlots] at hall
    obtain ⟨first, hfirst, rest, hrest, rfl⟩ := slotsAll_cons.1 h
    exact List.forall_mem_append.2 ⟨hall.1.of_mem_slots hfirst, hall.2.of_mem_slotsAll hrest⟩
end

theorem mem_slotPair {a b : Option Term} {e : Equation} (h : e ∈ slotPair a b) :
    a = some e.left ∧ b = some e.right := by
  cases a <;> cases b <;> simp_all [slotPair]

mutual
/-- Unifying two types pairs slots of the one with slots of the other. -/
theorem EverySlot.of_mem_pairs :
    ∀ {t u : Ty} {e : Equation}, t.EverySlot C → u.EverySlot C → e ∈ t.pairs u →
    C e.left ∧ C e.right
  | app ctor args, app ctor' args', e, ht, hu, he => by
    simp only [EverySlot] at ht hu
    rw [pairs] at he
    split at he
    · rcases List.mem_append.1 he with he | he
      · exact ht.1.of_mem_pairs hu.1 he
      · exact ht.2.of_mem_pairsAll hu.2 he
    · cases he
  | tuple elems, tuple elems', e, ht, hu, he => by
    simp only [EverySlot] at ht hu
    rw [pairs] at he
    split at he
    · exact ht.of_mem_pairsAll hu he
    · cases he
  | fn _ _ result capture, fn _ _ result' capture', e, ht, hu, he => by
    simp only [EverySlot] at ht hu
    rw [pairs] at he
    rcases List.mem_append.1 he with he | he
    · exact ⟨ht.2.2.2 _ (mem_slotPair he).1, hu.2.2.2 _ (mem_slotPair he).2⟩
    · exact ht.2.2.1.of_mem_pairs hu.2.2.1 he
  | absent, _, _, _, _, he | con _ _, _, _, _, _, he | app _ _, absent, _, _, _, he | app _ _,
      con _ _, _, _, _, he
  | app _ _, tuple _, _, _, _, he | app _ _, fn .., _, _, _, he | tuple _, absent, _, _, _, he
  | tuple _, con _ _, _, _, _, he | tuple _, app _ _, _, _, _, he | tuple _, fn .., _, _, _, he
  | fn .., absent, _, _, _, he | fn .., con _ _, _, _, _, he | fn .., app _ _, _, _, _, he
  | fn .., tuple _, _, _, _, he => by simp [pairs] at he

theorem EverySlots.of_mem_pairsAll :
    ∀ {ts us : List Ty} {e : Equation}, EverySlots C ts → EverySlots C us →
    e ∈ pairsAll ts us → C e.left ∧ C e.right
  | t :: ts, u :: us, e, ht, hu, he => by
    simp only [EverySlots] at ht hu
    rw [pairsAll] at he
    rcases List.mem_append.1 he with he | he
    · exact ht.1.of_mem_pairs hu.1 he
    · exact ht.2.of_mem_pairsAll hu.2 he
  | [], _, _, _, _, he | _ :: _, [], _, _, _, he => by simp [pairsAll] at he
end

/-! ## Substituting and printing -/

theorem exists_onSlot_of_covers {s : RegionSubst} {slot : Option Term}
    (h : ∀ term, slot = some term → table.Covers term) :
    ∃ slot', s.onSlot table slot = .ok slot' := by
  cases slot with
  | none => exact ⟨none, rfl⟩
  | some term =>
    refine exists_bind_ok (h term rfl) fun known => ?_
    cases known <;> exact ⟨_, rfl⟩

mutual
theorem exists_substAll_of_covers {s : RegionSubst} : ∀ {type : Ty}, type.EverySlot table.Covers →
    ∃ type', type.substAll table s = .ok type'
  | absent, _ => ⟨_, rfl⟩
  | con _ _, _ => ⟨_, rfl⟩
  | app ctor args, h => by
    simp only [EverySlot] at h
    rw [substAll]
    exact exists_bind_ok (exists_substEach_of_covers h.2) fun _ =>
      exists_bind_ok (exists_substAll_of_covers h.1) fun _ => ⟨_, rfl⟩
  | tuple elems, h => by
    simp only [EverySlot] at h
    rw [substAll]
    exact exists_bind_ok (exists_substEach_of_covers h) fun _ => ⟨_, rfl⟩
  | fn params blocks result capture, h => by
    simp only [EverySlot] at h
    rw [substAll]
    exact exists_bind_ok (exists_substEach_of_covers h.1) fun _ =>
      exists_bind_ok (exists_substEach_of_covers h.2.1) fun _ =>
      exists_bind_ok (exists_substAll_of_covers h.2.2.1) fun _ =>
      exists_bind_ok (exists_onSlot_of_covers h.2.2.2) fun _ => ⟨_, rfl⟩

theorem exists_substEach_of_covers {s : RegionSubst} :
    ∀ {types : List Ty}, EverySlots table.Covers types →
    ∃ types', substEach table s types = .ok types'
  | [], _ => ⟨_, rfl⟩
  | type :: types, h => by
    simp only [EverySlots] at h
    rw [substEach]
    exact exists_bind_ok (exists_substAll_of_covers h.1) fun _ =>
      exists_bind_ok (exists_substEach_of_covers h.2) fun _ => ⟨_, rfl⟩
end

theorem exists_formatSlot {name : Region → String} {slot : Option Term}
    (h : ∀ term, slot = some term → table.Covers term) :
    ∃ text, formatSlot table name slot = .ok text := by
  cases slot with
  | none => exact ⟨"", rfl⟩
  | some term =>
    refine exists_bind_ok (h term rfl) fun known => ?_
    cases known <;> exact ⟨_, rfl⟩

mutual
theorem exists_format {name : Region → String} : ∀ {type : Ty}, type.EverySlot table.Covers →
    ∃ text, type.format table name = .ok text
  | absent, _ => ⟨_, rfl⟩
  | con _ _, _ => ⟨_, rfl⟩
  | app ctor args, h => by
    simp only [EverySlot] at h
    rw [format]
    exact exists_bind_ok (exists_formatAll h.2) fun _ =>
      exists_bind_ok (exists_format h.1) fun _ => ⟨_, rfl⟩
  | tuple elems, h => by
    simp only [EverySlot] at h
    rw [format]
    exact exists_bind_ok (exists_formatAll h) fun _ => ⟨_, rfl⟩
  | fn params blocks result capture, h => by
    simp only [EverySlot] at h
    rw [format]
    exact exists_bind_ok (exists_formatAll h.1) fun _ =>
      exists_bind_ok (exists_formatAll h.2.1) fun _ =>
        exists_bind_ok (exists_format h.2.2.1) fun _ =>
          exists_bind_ok (exists_formatSlot h.2.2.2) fun _ => ⟨_, rfl⟩

theorem exists_formatAll {name : Region → String} :
    ∀ {types : List Ty}, EverySlots table.Covers types →
    ∃ texts, formatAll table name types = .ok texts
  | [], _ => ⟨_, rfl⟩
  | type :: types, h => by
    simp only [EverySlots] at h
    rw [formatAll]
    exact exists_bind_ok (exists_format h.1) fun _ =>
      exists_bind_ok (exists_formatAll h.2) fun _ => ⟨_, rfl⟩
end

/-! ## Reading a type -/

/-- A later table has the same variables, so it can read the same types. -/
theorem Readable.mono {u : Table} (h : type.Readable table)
    (hext : table.Extends u) : type.Readable u :=
  ⟨h.covered.imp fun _ => hext.covers_iff.2, h.whole⟩

theorem Readable.exists_freeRegions (h : type.Readable table) :
    ∃ free, type.freeRegions table = .ok free := by
  cases habsent : type.isAbsent with
  | true => exact ⟨∅, by simp [freeRegions, habsent]⟩
  | false =>
    obtain ⟨terms, hslots⟩ := exists_slots h.whole habsent
    obtain ⟨free, hfree⟩ := exists_unionKnown (h.covered.of_mem_slots hslots)
    exact ⟨free, (freeRegions_eq_ok hslots).2 hfree⟩

theorem exists_subst_of_covers (h : type.EverySlot table.Covers) (s : RegionSubst) :
    ∃ type', type.subst table s = .ok type' := by
  unfold subst
  split
  · exact ⟨type, rfl⟩
  · exact exists_substAll_of_covers h

end Ty

theorem Equation.Covered.substituted {e : Equation} {table : Table} (h : e.Covered table)
    (s : RegionSubst) :
    (e.substituted s table).Covered table := by
  refine ⟨by rw [left_substituted]; exact h.1, ?_⟩
  rcases h.2.knows_or_open with ⟨rs, hknows⟩ | hopen
  · exact (knows_substituted hknows).covers
  · rw [substituted_of_open hopen]
    exact h.2

/-- At a call only equations between variables of the table are added. -/
theorem Ty.Readable.covered_pairs {table : Table} {type result result' : Ty} {s : RegionSubst}
    (h : type.Readable table) (hresult : result.Readable table)
    (hsubst : result.subst table s = .ok result') :
    ∀ e ∈ type.pairs result', e.Covered table := by
  intro e he
  rw [Ty.pairs_subst type hsubst] at he
  obtain ⟨e', he', rfl⟩ := List.mem_map.1 he
  have hcovered : e'.Covered table := h.covered.of_mem_pairs hresult.covered he'
  exact hcovered.substituted s

/-! ## The types of a unit -/

/-- The types that the check reads at a node. The slot of a function value counts as that of a
function type. -/
def Tree.types : Tree → List Ty
  | function _ _ _ _ result _ => [result]
  | lambda _ _ _ _ result slot _ => [.fn [] [] result slot]
  | handle _ _ _ type => [type]
  | binding _ _ type _ => [type]
  | call _ _ _ _ type => [type]
  | ret _ _ type => [type]
  | _ => []

/-- The types of a tree can be read. -/
def Tree.Legible (table : Table) (t : Tree) : Prop :=
  ∀ n ∈ t.nodes, ∀ type ∈ n.types, type.Readable table

/-- The types of a unit: the results of its imports, and the types at its nodes. -/
def Module.types (m : Module) : List Ty :=
  m.imports.map Imported.result ++ m.tree.nodes.flatMap Tree.types

/-- All types of the unit can be read. -/
def Module.WellTyped (m : Module) (table : Table) : Prop := ∀ type ∈ m.types, type.Readable table

namespace Tree

variable {table : Table} {t : Tree}

theorem Legible.mono {u : Table} (h : t.Legible table) (hext : table.Extends u) : t.Legible u :=
  fun n hn type htype => (h n hn type htype).mono hext

theorem legible_iff (hhole : t.isHole = false) : t.Legible table ↔
    (∀ type ∈ t.types, type.Readable table) ∧ ∀ c ∈ t.tasks, c.tree.Legible table := by
  simp only [Legible, nodes_eq hhole, List.forall_mem_cons, List.mem_flatMap]
  refine and_congr_right fun _ => ⟨fun h c hc n hn => h n ⟨c, hc, hn⟩, ?_⟩
  rintro h n ⟨c, hc, hn⟩
  exact h c hc n hn

theorem Legible.of_mem_tasks (h : t.Legible table) {c : Task} (hc : c ∈ t.tasks) :
    c.tree.Legible table := by
  cases hhole : t.isHole with
  | true =>
    rw [eq_hole hhole] at hc
    cases hc
  | false => exact ((legible_iff hhole).1 h).2 c hc

theorem Legible.of_mem_nodes {n : Tree} (h : t.Legible table) (hn : n ∈ t.nodes) :
    n.Legible table := by
  induction t using Tree.induction_on_tasks with
  | step t ih =>
    rcases (mem_nodes.1 hn).2 with rfl | ⟨c, hc, hn⟩
    · exact h
    · exact ih c hc (h.of_mem_tasks hc) hn

end Tree

namespace Module

variable {m : Module} {table : Table}

theorem mem_types_of_node {n : Tree} {type : Ty} (hn : n ∈ m.tree.nodes)
    (htype : type ∈ n.types) : type ∈ m.types :=
  List.mem_append_right _ (List.mem_flatMap.2 ⟨n, hn, htype⟩)

theorem WellTyped.legible (h : m.WellTyped table) : m.tree.Legible table := fun _ hn type htype =>
  h type (mem_types_of_node hn htype)

/-- The signature that a call finds is one of those collected from the unit. -/
theorem mem_signatureList {x : SymbolId} {sig : CallSignature} (h : m.signatures[x]? = some sig) :
    (x, sig) ∈ m.signatureList := by
  suffices hfold :
      ∀ (ps : List (SymbolId × CallSignature)) (sigs : Std.TreeMap SymbolId CallSignature),
      (ps.foldl (fun sigs p => sigs.insert p.1 p.2) sigs)[x]? = some sig → (x, sig) ∈ ps ∨
      sigs[x]? = some sig by
    rcases hfold m.signatureList {} h with h | h
    · exact h
    · simp at h
  intro ps
  induction ps with
  | nil => exact fun sigs h => .inr h
  | cons p ps ih =>
    intro sigs h
    rcases ih _ h with h | h
    · exact .inl (List.mem_cons_of_mem p h)
    · rw [Std.TreeMap.getElem?_insert] at h
      split at h
      · rename_i heq
        cases h
        exact .inl (by rw [← Std.LawfulEqCmp.eq_of_compare heq]; exact List.mem_cons_self)
      · exact .inr h

/-- The result of a signature that a call finds is one of the types of the unit. -/
theorem result_mem_types {symbols : SymbolTable} {options : Options} {callee : Tree}
    {sig : CallSignature} (hsig : Check.calleeSignature (m.env symbols options) callee = some sig) :
    sig.result ∈ m.types := by
  cases callee with
  | ref info x =>
    rcases List.mem_append.1 (mem_signatureList hsig) with hmem | hmem
    · obtain ⟨i, hi, heq⟩ := List.mem_map.1 hmem
      cases heq
      exact List.mem_append_left _ (List.mem_map.2 ⟨i, hi, rfl⟩)
    · obtain ⟨n, hn, heq⟩ := List.mem_filterMap.1 hmem
      cases n with
      | function info symbol params blocks result body =>
        cases heq
        exact List.mem_append_right _ (List.mem_flatMap.2 ⟨_, hn, List.mem_cons_self⟩)
      | _ => cases heq
  | _ => cases hsig

end Module

/-! ## Provenance -/

namespace Tree

/-- The types of the values that a tree returns can be read. -/
def ReturnsReadable (table : Table) (t : Tree) : Prop :=
  ∀ n ∈ t.nodes, ∀ type, n.returned? = some type → type.Readable table

variable {table : Table} {t : Tree}

theorem ReturnsReadable.of_mem_children (h : t.ReturnsReadable table) {c : Tree}
    (hc : c ∈ t.children) :
    c.ReturnsReadable table := by
  intro n hn
  have hhole : t.isHole = false := by
    cases t with
    | hole => cases hc
    | _ => rfl
  refine h n ?_
  rw [nodes_eq_children hhole]
  exact List.mem_cons_of_mem _ (List.mem_flatMap.2 ⟨c, hc, hn⟩)

theorem Legible.returnsReadable (h : t.Legible table) : t.ReturnsReadable table := by
  intro n hn type htype
  cases n with
  | ret info value type =>
    cases htype
    exact h _ hn type List.mem_cons_self
  | _ => cases htype

end Tree

namespace Provenance

variable {p : Provenance} {r : Region}

theorem exists_traceAll {levels : Nat} {ts : List Tree}
    (h : ∀ t ∈ ts, ∃ trace, p.trace r levels t = .ok trace) :
    ∃ trace, p.traceAll r levels ts = .ok trace := by
  induction ts with
  | nil => exact ⟨[], rfl⟩
  | cons t ts ih =>
    obtain ⟨hfirst, hrest⟩ := List.forall_mem_cons.1 h
    rw [traceAll]
    exact exists_bind_ok hfirst fun _ => exists_bind_ok (ih hrest) fun _ => ⟨_, rfl⟩

/-- The traces of a tree are there if the types of the values it returns can be read. -/
theorem exists_trace {t : Tree} (h : t.ReturnsReadable p.table) (levels : Nat) :
    ∃ trace, p.trace r levels t = .ok trace := by
  induction t using Tree.induction_on_children generalizing levels with
  | step t ih =>
    have hbelow : ∀ levels, ∃ trace, p.traceAll r levels t.children = .ok trace := fun levels =>
      exists_traceAll fun c hc => ih c hc (h.of_mem_children hc) levels
    cases hhole : t.isHole with
    | true => exact ⟨[], by rw [Tree.eq_hole hhole, trace_hole]⟩
    | false =>
      cases levels with
      | zero => exact ⟨[], trace_zero t⟩
      | succ levels =>
        cases p.finding (r := r) hhole with
        | item message carries trace =>
          rw [trace]
          exact exists_bind_ok (hbelow levels) fun _ => ⟨_, rfl⟩
        | through mentioned trace =>
          rw [trace]
          exact hbelow (levels + 1)
        | skipped childless trace => exact ⟨[], trace levels⟩
        | fault type returned unreadable trace =>
          have hreadable : type.Readable p.table := by
            refine h t ?_ type returned
            rw [Tree.nodes_eq_children hhole]
            exact List.mem_cons_self
          rcases unreadable with hfree | htext
          · obtain ⟨free, hok⟩ := hreadable.exists_freeRegions
            exact absurd hok (hfree free)
          · obtain ⟨text, hok⟩ : ∃ text, p.typeText type = .ok text :=
              Ty.exists_format hreadable.covered
            exact absurd hok (htext text)

theorem exists_explain {t : Tree} (h : t.Legible p.table) (r : Region) :
    ∃ trace, p.explain r t = .ok trace :=
  exists_trace h.returnsReadable _

theorem exists_explainEach {t : Tree} (h : t.Legible p.table) (rs : RegionSet) :
    ∃ trace, p.explainEach t rs = .ok trace := by
  suffices hall : ∀ elems : List Region,
      ∃ traces, elems.mapM (fun r => p.explain r t) = .ok traces from
    exists_bind_ok (hall rs.elems) fun _ => ⟨_, rfl⟩
  intro elems
  induction elems with
  | nil => exact ⟨[], rfl⟩
  | cons r elems ih =>
    rw [List.mapM_cons]
    exact exists_bind_ok (exists_explain h r) fun _ => exists_bind_ok ih fun _ => ⟨_, rfl⟩

end Provenance

end RegionCapture
