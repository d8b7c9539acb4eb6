import RegionCapture.Ty.Subst
import RegionCapture.Ty.Unify
import RegionCapture.Proofs.Solve

/-!
# The slots of a type

The regions of a type are those of its slots whose sets are known (`Ty.unionKnown_spec`). Types of
the same shape have the same number of slots, and unifying them pairs these in order
(`Ty.paired_slots`). A substitution works on each slot by itself: it replaces the regions of a slot
that is known when the substitution is made, and leaves an open slot as it is (`Ty.pairs_subst`).
-/

namespace RegionCapture

theorem bind_eq_ok {ε α β : Type} {x : Except ε α} {f : α → Except ε β} {b : β} :
    (x >>= f) = .ok b ↔ ∃ a, x = .ok a ∧ f a = .ok b := by
  cases x with
  | error e => simp [bind, Except.bind]
  | ok a => simp [bind, Except.bind]

namespace Ty

/-! ## Known slots -/

/-- Adding the set of a term to a union, if it is known. -/
def addKnown (table : Table) (acc : RegionSet) (term : Term) : Except Fault RegionSet := do
  match ← table.concrete term with
  | some s => return acc ∪ s
  | none => return acc

theorem addKnown_spec {t : Table} {acc free : RegionSet} {term : Term}
    (h : addKnown t acc term = .ok free) :
    t.Covers term ∧ ∀ r, r ∈ free ↔ r ∈ acc ∨ ∃ s, t.Knows term s ∧ r ∈ s := by
  obtain ⟨known, hknown, h⟩ := bind_eq_ok.1 h
  refine ⟨⟨known, hknown⟩, fun r => ?_⟩
  cases known with
  | none =>
    cases h
    have hopen : ∀ s, ¬ t.Knows term s := fun s hs => hs.not_open hknown
    simp [hopen]
  | some s =>
    cases h
    have hs : ∀ s', t.Knows term s' ↔ s = s' := fun s' =>
      ⟨fun h' => Table.Knows.unique hknown h', fun h' => h' ▸ hknown⟩
    simp [hs]

theorem exists_addKnown {t : Table} {term : Term} (h : t.Covers term) (acc : RegionSet) :
    ∃ free, addKnown t acc term = .ok free := by
  obtain ⟨_ | s, hknown⟩ := h
  · exact ⟨acc, bind_eq_ok.2 ⟨none, hknown, rfl⟩⟩
  · exact ⟨acc ∪ s, bind_eq_ok.2 ⟨some s, hknown, rfl⟩⟩

theorem unionKnown_eq (t : Table) (terms : List Term) :
    unionKnown t terms = terms.foldlM (addKnown t) ∅ := rfl

/-- The union of known sets has the members of the sets that are known. -/
theorem unionKnown_spec {t : Table} {terms : List Term} {free : RegionSet}
    (h : unionKnown t terms = .ok free) :
    (∀ term ∈ terms, t.Covers term) ∧
    ∀ r, r ∈ free ↔ ∃ term ∈ terms, ∃ s, t.Knows term s ∧ r ∈ s := by
  suffices hfold : ∀ acc, terms.foldlM (addKnown t) acc = .ok free →
      (∀ term ∈ terms, t.Covers term) ∧
      ∀ r, r ∈ free ↔ r ∈ acc ∨ ∃ term ∈ terms, ∃ s, t.Knows term s ∧ r ∈ s by
    simpa only [RegionSet.not_mem_empty, false_or] using hfold ∅ (unionKnown_eq t terms ▸ h)
  clear h
  induction terms with
  | nil =>
    intro acc h
    cases h
    simp
  | cons term terms ih =>
    intro acc h
    rw [List.foldlM_cons] at h
    obtain ⟨mid, hmid, hrest⟩ := bind_eq_ok.1 h
    obtain ⟨hcov, hmid⟩ := addKnown_spec hmid
    obtain ⟨hcovs, hfree⟩ := ih mid hrest
    exact ⟨List.forall_mem_cons.2 ⟨hcov, hcovs⟩, fun r => by simp [hfree, hmid, or_assoc]⟩

/-- The union of known sets is there if every term is one of the table. -/
theorem exists_unionKnown {t : Table} {terms : List Term} (h : ∀ term ∈ terms, t.Covers term) :
    ∃ free, unionKnown t terms = .ok free := by
  suffices hfold : ∀ acc, ∃ free, terms.foldlM (addKnown t) acc = .ok free from hfold ∅
  induction terms with
  | nil => exact fun acc => ⟨acc, rfl⟩
  | cons term terms ih =>
    intro acc
    obtain ⟨hcov, hcovs⟩ := List.forall_mem_cons.1 h
    obtain ⟨mid, hmid⟩ := exists_addKnown hcov acc
    obtain ⟨free, hfree⟩ := ih hcovs mid
    exact ⟨free, by rw [List.foldlM_cons, hmid]; exact hfree⟩

theorem isAbsent_of_slots {type : Ty} {terms : List Term} (h : type.slots = .ok terms) :
    type.isAbsent = false := by
  cases type with
  | absent => cases h
  | _ => rfl

theorem freeRegions_eq_ok {t : Table} {type : Ty} {terms : List Term} {free : RegionSet}
    (hslots : type.slots = .ok terms) :
    type.freeRegions t = .ok free ↔ unionKnown t terms = .ok free := by
  simp [freeRegions, isAbsent_of_slots hslots, hslots, bind, Except.bind]

/-- A type that can be read over a table can be read over any later one. -/
theorem exists_freeRegions {t u : Table} {type : Ty} {free : RegionSet} (h : t.Extends u)
    (hfree : type.freeRegions t = .ok free) : ∃ free', type.freeRegions u = .ok free' := by
  cases habsent : type.isAbsent with
  | true => exact ⟨∅, by simp [freeRegions, habsent]⟩
  | false =>
    simp only [freeRegions, habsent, Bool.false_eq_true, if_false] at hfree ⊢
    obtain ⟨terms, hslots, hunion⟩ := bind_eq_ok.1 hfree
    obtain ⟨free', hfree'⟩ := exists_unionKnown (t := u) fun term hterm =>
      h.covers_iff.2 ((unionKnown_spec hunion).1 term hterm)
    exact ⟨free', bind_eq_ok.2 ⟨terms, hslots, hfree'⟩⟩

/-- A later table knows of more regions in a type. -/
theorem freeRegions_mono {t u : Table} {type : Ty} {free free' : RegionSet} (h : t.Extends u)
    (hfree : type.freeRegions t = .ok free) (hfree' : type.freeRegions u = .ok free') :
    ∀ r ∈ free, r ∈ free' := by
  intro r hr
  cases habsent : type.isAbsent with
  | true =>
    simp only [freeRegions, habsent, if_true, Except.ok.injEq] at hfree
    exact absurd hr (hfree ▸ RegionSet.not_mem_empty r)
  | false =>
    simp only [freeRegions, habsent, Bool.false_eq_true, if_false] at hfree
    obtain ⟨terms, hslots, hunion⟩ := bind_eq_ok.1 hfree
    obtain ⟨term, hterm, s, hknows, hr⟩ := ((unionKnown_spec hunion).2 r).1 hr
    have hunion' := (freeRegions_eq_ok hslots).1 hfree'
    exact ((unionKnown_spec hunion').2 r).2 ⟨term, hterm, s, h.knows hknows, hr⟩

/-! ## Types of the same shape -/

mutual
/-- The types differ at most in names, in what they say about parameters and blocks, and in what
their slots hold. -/
def SameShape : Ty → Ty → Prop
  | absent, absent => True
  | con _ _, con _ _ => True
  | app ctor args, app ctor' args' => ctor.SameShape ctor' ∧ SameShapes args args'
  | tuple elems, tuple elems' => SameShapes elems elems'
  | fn _ _ result capture, fn _ _ result' capture' =>
    capture.isSome = capture'.isSome ∧ result.SameShape result'
  | _, _ => False

/-- The types in two lists have the same shapes, one by one. -/
def SameShapes : List Ty → List Ty → Prop
  | [], [] => True
  | t :: ts, u :: us => t.SameShape u ∧ SameShapes ts us
  | _, _ => False
end

theorem SameShape.isAbsent_eq {t u : Ty} (h : t.SameShape u) : t.isAbsent = u.isAbsent := by
  cases t <;> cases u <;> first | rfl | simp [SameShape] at h

theorem pairs_of_absent {t u : Ty} (h : t.isAbsent = true) : t.pairs u = [] := by
  cases t with
  | absent => rw [pairs]; all_goals exact nofun
  | _ => cases h

/-- The slots of a function type are its own one and those of its result, if there is a result. -/
theorem slots_fn {params blocks : List Ty} {result : Ty} {capture : Option Term}
    {terms : List Term} :
    (fn params blocks result capture).slots = .ok terms ↔
      ∃ inner, capture.toList ++ inner = terms ∧
        ((result.isAbsent = true ∧ inner = []) ∨
          (result.isAbsent = false ∧ result.slots = .ok inner)) := by
  cases habsent : result.isAbsent with
  | true => simp [slots, habsent, bind, Except.bind, pure, Except.pure]
  | false =>
    simp only [slots, habsent, Bool.false_eq_true, if_false, bind_eq_ok, pure, Except.pure,
      Except.ok.injEq]
    simp [and_comm]

theorem slots_app {ctor : Ty} {args : List Ty} {terms : List Term} :
    (app ctor args).slots = .ok terms ↔
    ∃ first, ctor.slots = .ok first ∧ ∃ rest, slotsAll args = .ok rest ∧ first ++ rest = terms := by
  simp only [slots, bind_eq_ok, pure, Except.pure, Except.ok.injEq]

theorem slotsAll_cons {t : Ty} {ts : List Ty} {terms : List Term} : slotsAll (t :: ts) = .ok terms ↔
    ∃ first, t.slots = .ok first ∧ ∃ rest, slotsAll ts = .ok rest ∧ first ++ rest = terms := by
  simp only [slotsAll, bind_eq_ok, pure, Except.pure, Except.ok.injEq]

theorem SameShapes.length_eq : ∀ {ts us : List Ty}, SameShapes ts us → ts.length = us.length
  | [], [], _ => rfl
  | _ :: _, _ :: _, h => by
    simp only [SameShapes] at h
    simp [SameShapes.length_eq h.2]
  | [], _ :: _, h => by simp [SameShapes] at h
  | _ :: _, [], h => by simp [SameShapes] at h

/-- The equations between two lists of terms that stand for the slots of two types. -/
structure Paired (es : List Equation) (ts us : List Term) : Prop where
  length_eq : ts.length = us.length
  pairs_eq : es = List.zipWith Equation.mk ts us

theorem Paired.append {es es' : List Equation} {ts ts' us us' : List Term} (h : Paired es ts us)
    (h' : Paired es' ts' us') : Paired (es ++ es') (ts ++ ts') (us ++ us') := by
  refine ⟨by simp [h.length_eq, h'.length_eq], ?_⟩
  rw [h.pairs_eq, h'.pairs_eq, List.zipWith_append h.length_eq]

theorem paired_nil : Paired [] [] [] := ⟨rfl, rfl⟩

theorem paired_slotPair {a b : Option Term} (h : a.isSome = b.isSome) :
    Paired (slotPair a b) a.toList b.toList := by
  cases a <;> cases b <;> first | exact ⟨rfl, rfl⟩ | cases h

mutual
/-- Unifying types of the same shape pairs their slots in order. -/
theorem paired_slots :
    ∀ {t u : Ty} {ts us : List Term}, t.SameShape u → t.slots = .ok ts → u.slots = .ok us →
    Paired (t.pairs u) ts us
  | con _ _, con _ _, _, _, _, ht, hu => by
    cases ht
    cases hu
    exact paired_nil
  | app ctor args, app ctor' args', _, _, h, ht, hu => by
    simp only [SameShape] at h
    obtain ⟨_, hctor, _, hargs, rfl⟩ := slots_app.1 ht
    obtain ⟨_, hctor', _, hargs', rfl⟩ := slots_app.1 hu
    rw [pairs, if_pos h.2.length_eq]
    exact (paired_slots h.1 hctor hctor').append (paired_slotsAll h.2 hargs hargs')
  | tuple elems, tuple elems', _, _, h, ht, hu => by
    simp only [SameShape] at h
    rw [pairs, if_pos h.length_eq]
    exact paired_slotsAll h (by rwa [slots] at ht) (by rwa [slots] at hu)
  | fn _ _ result capture, fn _ _ result' capture', _, _, h, ht, hu => by
    simp only [SameShape] at h
    obtain ⟨inner, rfl, hinner⟩ := slots_fn.1 ht
    obtain ⟨inner', rfl, hinner'⟩ := slots_fn.1 hu
    rw [pairs]
    refine (paired_slotPair h.1).append ?_
    rcases hinner with ⟨habsent, rfl⟩ | ⟨habsent, hslots⟩ <;>
      rcases hinner' with ⟨habsent', rfl⟩ | ⟨habsent', hslots'⟩
    · rw [pairs_of_absent habsent]
      exact paired_nil
    · exact absurd (habsent.symm.trans h.2.isAbsent_eq) (by simp [habsent'])
    · exact absurd (habsent.symm.trans h.2.isAbsent_eq) (by simp [habsent'])
    · exact paired_slots h.2 hslots hslots'
  | absent, _, _, _, _, ht, _ => by cases ht

theorem paired_slotsAll :
    ∀ {ts us : List Ty} {as bs : List Term}, SameShapes ts us → slotsAll ts = .ok as →
    slotsAll us = .ok bs → Paired (pairsAll ts us) as bs
  | [], [], _, _, _, ht, hu => by
    cases ht
    cases hu
    exact paired_nil
  | t :: ts, u :: us, _, _, h, ht, hu => by
    simp only [SameShapes] at h
    obtain ⟨_, hfirst, _, hrest, rfl⟩ := slotsAll_cons.1 ht
    obtain ⟨_, hfirst', _, hrest', rfl⟩ := slotsAll_cons.1 hu
    rw [pairsAll]
    exact (paired_slots h.1 hfirst hfirst').append (paired_slotsAll h.2 hrest hrest')
end

theorem mem_pairs_of_slots {t u : Ty} {as bs : List Term} {a b : Term} {i : Nat} (h : t.SameShape u)
    (hs : t.slots = .ok as) (hs' : u.slots = .ok bs) (ha : as[i]? = some a) (hb : bs[i]? = some b) :
    (⟨a, b⟩ : Equation) ∈ t.pairs u := by
  rw [(paired_slots h hs hs').pairs_eq]
  exact List.mem_iff_getElem?.2 ⟨i, by simp [List.getElem?_zipWith, ha, hb]⟩

theorem present_of_mem_pairs {t u : Ty} {e : Equation} (h : e ∈ t.pairs u) :
    (t.isAbsent || u.isAbsent) = false := by
  cases t <;> cases u <;> first | rfl | simp [pairs] at h

end Ty

/-! ## Substitution on each slot -/

namespace RegionSubst

variable {s : RegionSubst} {t : Table}

/-- What replacing regions makes of a slot: the replaced set if the slot is known, and otherwise the
slot itself. -/
def onTerm (s : RegionSubst) (t : Table) (term : Term) : Term :=
  match t.concrete term with
  | .ok (some rs) => .set (s.onSet rs)
  | _ => term

theorem onTerm_of_knows {term : Term} {rs : RegionSet} (h : t.Knows term rs) :
    s.onTerm t term = .set (s.onSet rs) := by
  have hconcrete : t.concrete term = .ok (some rs) := h
  simp [onTerm, hconcrete]

theorem onTerm_of_open {term : Term} (h : t.Open term) : s.onTerm t term = term := by
  have hconcrete : t.concrete term = .ok none := h
  simp [onTerm, hconcrete]

theorem onSlot_eq_ok {slot slot' : Option Term} (h : s.onSlot t slot = .ok slot') :
    slot' = slot.map (s.onTerm t) := by
  cases slot with
  | none => cases h; rfl
  | some term =>
    obtain ⟨known, hknown, h⟩ := bind_eq_ok.1 h
    cases known with
    | none => cases h; simp [onTerm, hknown]
    | some rs => cases h; simp [onTerm, hknown]

/-- A region is in the replaced set if it is in the replacement of a member. -/
theorem mem_onSet {rs : RegionSet} {r : Region} : r ∈ s.onSet rs ↔ ∃ q ∈ rs, r ∈ s.image q := by
  have h : ∀ (qs : List Region) (acc : RegionSet),
      r ∈ qs.foldl (fun acc q => acc ∪ s.image q) acc ↔ r ∈ acc ∨ ∃ q ∈ qs, r ∈ s.image q := by
    intro qs
    induction qs with
    | nil => simp
    | cons q qs ih => intro acc; simp [ih, or_assoc]
  refine (h rs.elems ∅).trans ?_
  simp only [RegionSet.not_mem_empty, false_or]
  exact Iff.rfl

theorem onSet_nil (rs : RegionSet) : RegionSubst.onSet [] rs = rs :=
  RegionSet.ext_mem fun r => by simp [mem_onSet, image]

end RegionSubst

namespace Equation

variable {s : RegionSubst} {t : Table} {e : Equation}

/-- The equation with the regions on its right side replaced. -/
def onRight (s : RegionSubst) (t : Table) (e : Equation) : Equation := ⟨e.left, s.onTerm t e.right⟩

/-- The equation as it is added at a call. With nothing to replace it stays as it is. -/
def substituted (s : RegionSubst) (t : Table) (e : Equation) : Equation :=
  if s = [] then e else e.onRight s t

@[simp] theorem left_substituted : (e.substituted s t).left = e.left := by
  unfold substituted
  split <;> rfl

theorem knows_substituted {rs : RegionSet} (h : t.Knows e.right rs) :
    t.Knows (e.substituted s t).right (s.onSet rs) := by
  unfold substituted
  split
  · rename_i hnil
    rwa [hnil, RegionSubst.onSet_nil]
  · rw [onRight, RegionSubst.onTerm_of_knows h]
    exact Table.knows_set.2 rfl

/-- A substitution leaves a variable of another table as it is. -/
theorem covered_of_substituted (h : (e.substituted s t).Covered t) : e.Covered t := by
  unfold substituted at h
  split at h
  · exact h
  · refine ⟨h.1, Classical.byContradiction fun hcov => hcov ?_⟩
    have hright : t.Covers (s.onTerm t e.right) := h.2
    cases hconcrete : t.concrete e.right with
    | ok known => exact ⟨known, hconcrete⟩
    | error f => simpa [RegionSubst.onTerm, hconcrete] using hright

theorem substituted_of_open (h : t.Open e.right) : e.substituted s t = e := by
  unfold substituted
  split
  · rfl
  · rw [onRight, RegionSubst.onTerm_of_open h]

end Equation

namespace Ty

variable {s : RegionSubst} {table : Table}

theorem length_substEach :
    ∀ {us us' : List Ty}, substEach table s us = .ok us' → us'.length = us.length
  | [], _, h => by cases h; rfl
  | u :: us, _, h => by
    rw [substEach] at h
    obtain ⟨_, -, h⟩ := bind_eq_ok.1 h
    obtain ⟨_, hrest, h⟩ := bind_eq_ok.1 h
    cases h
    simp [length_substEach hrest]

theorem slotPair_onSlot (a : Option Term) {b b' : Option Term} (h : s.onSlot table b = .ok b') :
    slotPair a b' = (slotPair a b).map (Equation.onRight s table) := by
  rw [RegionSubst.onSlot_eq_ok h]
  cases a <;> cases b <;> rfl

mutual
/-- A substitution on the right type acts on the right side of every equation. -/
theorem pairs_substAll : ∀ (t : Ty) {u u' : Ty}, u.substAll table s = .ok u' →
    t.pairs u' = (t.pairs u).map (Equation.onRight s table)
  | t, absent, _, h => by
    cases h
    cases t <;> simp [pairs]
  | t, con _ _, _, h => by
    cases h
    cases t <;> simp [pairs]
  | t, app ctor args, _, h => by
    rw [substAll] at h
    obtain ⟨args', hargs, h⟩ := bind_eq_ok.1 h
    obtain ⟨ctor', hctor, h⟩ := bind_eq_ok.1 h
    cases h
    cases t with
    | app c as =>
      rw [pairs, pairs, length_substEach hargs, pairs_substAll c hctor, pairsAll_substEach as hargs]
      split <;> simp
    | _ => simp [pairs]
  | t, tuple elems, _, h => by
    rw [substAll] at h
    obtain ⟨elems', helems, h⟩ := bind_eq_ok.1 h
    cases h
    cases t with
    | tuple es =>
      rw [pairs, pairs, length_substEach helems, pairsAll_substEach es helems]
      split <;> simp
    | _ => simp [pairs]
  | t, fn params blocks result capture, _, h => by
    rw [substAll] at h
    obtain ⟨params', -, h⟩ := bind_eq_ok.1 h
    obtain ⟨blocks', -, h⟩ := bind_eq_ok.1 h
    obtain ⟨result', hresult, h⟩ := bind_eq_ok.1 h
    obtain ⟨capture', hcapture, h⟩ := bind_eq_ok.1 h
    cases h
    cases t with
    | fn ps bs r c =>
      simp only [pairs, pairs_substAll r hresult, slotPair_onSlot c hcapture, List.map_append]
    | _ => simp [pairs]

theorem pairsAll_substEach : ∀ (ts : List Ty) {us us' : List Ty}, substEach table s us = .ok us' →
    pairsAll ts us' = (pairsAll ts us).map (Equation.onRight s table)
  | ts, [], _, h => by
    cases h
    cases ts <;> simp [pairsAll]
  | ts, u :: us, _, h => by
    rw [substEach] at h
    obtain ⟨u', hu, h⟩ := bind_eq_ok.1 h
    obtain ⟨us', hus, h⟩ := bind_eq_ok.1 h
    cases h
    cases ts with
    | nil => simp [pairsAll]
    | cons t ts =>
      simp only [pairsAll, pairs_substAll t hu, pairsAll_substEach ts hus, List.map_append]
end

theorem exists_onSlot {t u : Table} {s s' : RegionSubst} {slot slot' : Option Term}
    (h : t.Extends u) (hslot : s.onSlot t slot = .ok slot') :
    ∃ slot'', s'.onSlot u slot = .ok slot'' := by
  cases slot with
  | none => exact ⟨none, rfl⟩
  | some term =>
    obtain ⟨known, hknown, -⟩ := bind_eq_ok.1 hslot
    obtain ⟨_ | rs, hknown'⟩ := h.covers_iff.2 ⟨known, hknown⟩
    · exact ⟨_, bind_eq_ok.2 ⟨none, hknown', rfl⟩⟩
    · exact ⟨_, bind_eq_ok.2 ⟨some rs, hknown', rfl⟩⟩

mutual
/-- Whether a substitution goes through depends on the variables of the table only. -/
theorem exists_substAll {t u : Table} {s s' : RegionSubst} (h : t.Extends u) : ∀ {type type' : Ty},
    type.substAll t s = .ok type' → ∃ type'', type.substAll u s' = .ok type''
  | absent, _, _ => ⟨_, rfl⟩
  | con _ _, _, _ => ⟨_, rfl⟩
  | app ctor args, _, hsubst => by
    rw [substAll] at hsubst
    obtain ⟨_, hargs, hsubst⟩ := bind_eq_ok.1 hsubst
    obtain ⟨_, hctor, -⟩ := bind_eq_ok.1 hsubst
    obtain ⟨args', hargs'⟩ := exists_substEach h hargs
    obtain ⟨ctor', hctor'⟩ := exists_substAll h hctor
    exact ⟨_, by rw [substAll]; exact bind_eq_ok.2 ⟨args', hargs',
      bind_eq_ok.2 ⟨ctor', hctor', rfl⟩⟩⟩
  | tuple elems, _, hsubst => by
    rw [substAll] at hsubst
    obtain ⟨_, helems, -⟩ := bind_eq_ok.1 hsubst
    obtain ⟨elems', helems'⟩ := exists_substEach h helems
    exact ⟨_, by rw [substAll]; exact bind_eq_ok.2 ⟨elems', helems', rfl⟩⟩
  | fn params blocks result capture, _, hsubst => by
    rw [substAll] at hsubst
    obtain ⟨_, hparams, hsubst⟩ := bind_eq_ok.1 hsubst
    obtain ⟨_, hblocks, hsubst⟩ := bind_eq_ok.1 hsubst
    obtain ⟨_, hresult, hsubst⟩ := bind_eq_ok.1 hsubst
    obtain ⟨_, hcapture, -⟩ := bind_eq_ok.1 hsubst
    obtain ⟨params', hparams'⟩ := exists_substEach h hparams
    obtain ⟨blocks', hblocks'⟩ := exists_substEach h hblocks
    obtain ⟨result', hresult'⟩ := exists_substAll h hresult
    obtain ⟨capture', hcapture'⟩ := exists_onSlot h hcapture
    exact ⟨_, by
      rw [substAll]
      exact bind_eq_ok.2 ⟨params', hparams',
        bind_eq_ok.2 ⟨blocks', hblocks', bind_eq_ok.2 ⟨result', hresult',
        bind_eq_ok.2 ⟨capture', hcapture', rfl⟩⟩⟩⟩⟩

theorem exists_substEach {t u : Table} {s s' : RegionSubst} (h : t.Extends u) :
    ∀ {types types' : List Ty},
    substEach t s types = .ok types' → ∃ types'', substEach u s' types = .ok types''
  | [], _, _ => ⟨_, rfl⟩
  | type :: types, _, hsubst => by
    rw [substEach] at hsubst
    obtain ⟨_, hfirst, hsubst⟩ := bind_eq_ok.1 hsubst
    obtain ⟨_, hrest, -⟩ := bind_eq_ok.1 hsubst
    obtain ⟨first', hfirst'⟩ := exists_substAll h hfirst
    obtain ⟨rest', hrest'⟩ := exists_substEach h hrest
    exact ⟨_, by rw [substEach]; exact bind_eq_ok.2 ⟨first', hfirst',
      bind_eq_ok.2 ⟨rest', hrest', rfl⟩⟩⟩
end

/-- A substitution that goes through does so over any later table, whatever it puts in. -/
theorem exists_subst {t u : Table} {s s' : RegionSubst} {type type' : Ty} (h : t.Extends u)
    (hnil : s = [] → s' = []) (hsubst : type.subst t s = .ok type') :
    ∃ type'', type.subst u s' = .ok type'' := by
  unfold subst at hsubst ⊢
  cases s with
  | nil => exact ⟨type, by simp [hnil rfl]⟩
  | cons p s =>
    obtain ⟨type'', htype⟩ := exists_substAll h hsubst
    split
    · exact ⟨type, rfl⟩
    · exact ⟨type'', htype⟩

/-- Unifying with a substituted type gives the substituted equations. -/
theorem pairs_subst (t : Ty) {u u' : Ty} (h : u.subst table s = .ok u') :
    t.pairs u' = (t.pairs u).map (Equation.substituted s table) := by
  unfold subst at h
  cases s with
  | nil =>
    cases h
    exact (List.map_id _).symm
  | cons p s => exact pairs_substAll t h

end Ty

end RegionCapture
