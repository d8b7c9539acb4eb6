import RegionCapture.Proofs.Readable

/-!
# Simultaneous substitution

A substitution changes a type slot by slot and nothing else in it (`Ty.eq_mapSlots_of_substAll`).
What it does with a slot depends only on what the table knows of it (`RegionSubst.Acts`): the
members of a known set are replaced, all at once (`RegionSubst.Replaces`), and an open variable is
kept. So the regions of the type are replaced in the same way and its open variables stay as they
are. Main statement `Ty.subst_slotwise`.
-/

namespace RegionCapture

namespace RegionSubst

/-- The second set has the members of the first that are not replaced, and the replacements of the
others. -/
def Replaces (s : RegionSubst) (rs rs' : RegionSet) : Prop :=
  ∀ q, q ∈ rs' ↔ (q ∈ rs ∧ s.lookup q = none) ∨
    ∃ r ∈ rs, ∃ image, s.lookup r = some image ∧ q ∈ image

/-- A change of slots that replaces the members of known sets and keeps open variables. -/
structure Acts (s : RegionSubst) (table : Table) (f : Term → Term) : Prop where
  knows : ∀ {term rs}, table.Knows term rs → table.Knows (f term) (s.onSet rs)
  kept : ∀ {term}, table.Open term → f term = term

variable {s : RegionSubst} {table : Table} {f : Term → Term} {term : Term}

theorem replaces_onSet (s : RegionSubst) (rs : RegionSet) : s.Replaces rs (s.onSet rs) := by
  intro q
  rw [mem_onSet]
  constructor
  · rintro ⟨r, hr, hq⟩
    unfold image at hq
    cases hlookup : s.lookup r with
    | none =>
      rw [hlookup, Option.getD_none, RegionSet.mem_singleton] at hq
      exact .inl (hq ▸ ⟨hr, hlookup⟩)
    | some image =>
      rw [hlookup, Option.getD_some] at hq
      exact .inr ⟨r, hr, image, hlookup, hq⟩
  · rintro (⟨hq, hlookup⟩ | ⟨r, hr, image, hlookup, hq⟩)
    · exact ⟨q, hq, by simp [RegionSubst.image, hlookup]⟩
    · exact ⟨r, hr, by simp [RegionSubst.image, hlookup, hq]⟩

theorem Replaces.unique {rs a b : RegionSet} (ha : s.Replaces rs a)
    (hb : s.Replaces rs b) : a = b :=
  RegionSet.ext_mem fun q => (ha q).trans (hb q).symm

theorem acts_onTerm (s : RegionSubst) (table : Table) : s.Acts table (s.onTerm table) where
  knows h := by
    rw [onTerm_of_knows h]
    exact Table.knows_set.2 rfl
  kept := onTerm_of_open

theorem acts_nil (table : Table) : Acts [] table id where
  knows h := by
    rw [onSet_nil]
    exact h
  kept _ := rfl

theorem Acts.knows_iff (h : s.Acts table f) (hcov : table.Covers term) {rs' : RegionSet} :
    table.Knows (f term) rs' ↔ ∃ rs, table.Knows term rs ∧ rs' = s.onSet rs := by
  constructor
  · intro hknows
    rcases hcov.knows_or_open with ⟨rs, hrs⟩ | hopen
    · exact ⟨rs, hrs, hknows.unique (h.knows hrs)⟩
    · rw [h.kept hopen] at hknows
      exact absurd hopen hknows.not_open
  · rintro ⟨rs, hrs, rfl⟩
    exact h.knows hrs

theorem Acts.covers (h : s.Acts table f) (hcov : table.Covers term) : table.Covers (f term) := by
  rcases hcov.knows_or_open with ⟨rs, hrs⟩ | hopen
  · exact (h.knows hrs).covers
  · rw [h.kept hopen]
    exact hcov

end RegionSubst

namespace Ty

variable {s : RegionSubst} {table : Table} {f : Term → Term} {terms : List Term}

/-! ## Changing what slots hold -/

mutual
/-- The type with what every slot holds changed, also in parameters and blocks. -/
def mapSlots (f : Term → Term) : Ty → Ty
  | absent => absent
  | con name module => con name module
  | app ctor args => app (ctor.mapSlots f) (mapSlotsAll f args)
  | tuple elems => tuple (mapSlotsAll f elems)
  | fn params blocks result capture =>
    fn (mapSlotsAll f params) (mapSlotsAll f blocks) (result.mapSlots f) (capture.map f)

/-- The types with what every slot holds changed. -/
def mapSlotsAll (f : Term → Term) : List Ty → List Ty
  | [] => []
  | t :: ts => t.mapSlots f :: mapSlotsAll f ts
end

@[simp] theorem isAbsent_mapSlots (t : Ty) : (t.mapSlots f).isAbsent = t.isAbsent := by
  cases t <;> simp [mapSlots, isAbsent]

mutual
@[simp] theorem mapSlots_id : ∀ t : Ty, t.mapSlots id = t
  | absent | con _ _ => by simp [mapSlots]
  | app ctor args => by rw [mapSlots, mapSlots_id ctor, mapSlotsAll_id args]
  | tuple elems => by rw [mapSlots, mapSlotsAll_id elems]
  | fn params blocks result capture => by
    rw [mapSlots, mapSlotsAll_id params, mapSlotsAll_id blocks, mapSlots_id result,
      Option.map_id, id]

theorem mapSlotsAll_id : ∀ ts : List Ty, mapSlotsAll id ts = ts
  | [] => by rw [mapSlotsAll]
  | t :: ts => by rw [mapSlotsAll, mapSlots_id t, mapSlotsAll_id ts]
end

mutual
/-- The free slots hold what they are changed to, in the same order. -/
theorem slots_mapSlots :
    ∀ {t : Ty} {terms : List Term}, t.slots = .ok terms → (t.mapSlots f).slots = .ok (terms.map f)
  | con _ _, _, h => by
    cases h
    rfl
  | app ctor args, _, h => by
    obtain ⟨first, hfirst, rest, hrest, rfl⟩ := slots_app.1 h
    rw [mapSlots, List.map_append]
    exact slots_app.2 ⟨_, slots_mapSlots hfirst, _, slotsAll_mapSlotsAll hrest, rfl⟩
  | tuple elems, _, h => by
    rw [slots] at h
    rw [mapSlots, slots]
    exact slotsAll_mapSlotsAll h
  | fn _ _ result capture, _, h => by
    obtain ⟨inner, rfl, hinner⟩ := slots_fn.1 h
    rw [mapSlots, List.map_append, ← Option.toList_map]
    refine slots_fn.2 ⟨_, rfl, ?_⟩
    rw [isAbsent_mapSlots]
    rcases hinner with ⟨habsent, rfl⟩ | ⟨habsent, hslots⟩
    · exact .inl ⟨habsent, rfl⟩
    · exact .inr ⟨habsent, slots_mapSlots hslots⟩

theorem slotsAll_mapSlotsAll : ∀ {ts : List Ty} {terms : List Term}, slotsAll ts = .ok terms →
    slotsAll (mapSlotsAll f ts) = .ok (terms.map f)
  | [], _, h => by
    cases h
    rfl
  | t :: ts, _, h => by
    obtain ⟨first, hfirst, rest, hrest, rfl⟩ := slotsAll_cons.1 h
    rw [mapSlotsAll, List.map_append]
    exact slotsAll_cons.2 ⟨_, slots_mapSlots hfirst, _, slotsAll_mapSlotsAll hrest, rfl⟩
end

mutual
/-- A substitution changes what slots hold, and leaves the rest of a type as it is. -/
theorem eq_mapSlots_of_substAll :
    ∀ {t t' : Ty}, t.substAll table s = .ok t' → t' = t.mapSlots (s.onTerm table)
  | absent, _, h | con _ _, _, h => by
    cases h
    rw [mapSlots]
  | app ctor args, _, h => by
    rw [substAll] at h
    obtain ⟨args', hargs, h⟩ := bind_eq_ok.1 h
    obtain ⟨ctor', hctor, h⟩ := bind_eq_ok.1 h
    cases h
    rw [mapSlots, eq_mapSlots_of_substAll hctor, eq_mapSlotsAll_of_substEach hargs]
  | tuple elems, _, h => by
    rw [substAll] at h
    obtain ⟨elems', helems, h⟩ := bind_eq_ok.1 h
    cases h
    rw [mapSlots, eq_mapSlotsAll_of_substEach helems]
  | fn params blocks result capture, _, h => by
    rw [substAll] at h
    obtain ⟨params', hparams, h⟩ := bind_eq_ok.1 h
    obtain ⟨blocks', hblocks, h⟩ := bind_eq_ok.1 h
    obtain ⟨result', hresult, h⟩ := bind_eq_ok.1 h
    obtain ⟨capture', hcapture, h⟩ := bind_eq_ok.1 h
    cases h
    rw [mapSlots, eq_mapSlotsAll_of_substEach hparams, eq_mapSlotsAll_of_substEach hblocks,
      eq_mapSlots_of_substAll hresult, RegionSubst.onSlot_eq_ok hcapture]

theorem eq_mapSlotsAll_of_substEach : ∀ {ts ts' : List Ty}, substEach table s ts = .ok ts' →
    ts' = mapSlotsAll (s.onTerm table) ts
  | [], _, h => by
    cases h
    rw [mapSlotsAll]
  | t :: ts, _, h => by
    rw [substEach] at h
    obtain ⟨t', ht, h⟩ := bind_eq_ok.1 h
    obtain ⟨ts', hts, h⟩ := bind_eq_ok.1 h
    cases h
    rw [mapSlotsAll, eq_mapSlots_of_substAll ht, eq_mapSlotsAll_of_substEach hts]
end

/-- Substituting is a change of slots, also where there is nothing to replace and the type is not
looked at. -/
theorem exists_acts_of_covers {type : Ty} (h : type.EverySlot table.Covers) (s : RegionSubst) :
    ∃ f, s.Acts table f ∧ type.subst table s = .ok (type.mapSlots f) := by
  obtain ⟨type', htype⟩ := exists_subst_of_covers h s
  rw [htype]
  unfold subst at htype
  split at htype
  · rename_i hempty
    cases htype
    rw [List.isEmpty_iff.1 hempty]
    exact ⟨id, RegionSubst.acts_nil table, by rw [mapSlots_id]⟩
  · exact ⟨_, RegionSubst.acts_onTerm s table, by rw [eq_mapSlots_of_substAll htype]⟩

/-! ## What is read from the changed slots -/

theorem unionKnown_map (h : s.Acts table f) {free : RegionSet}
    (hfree : unionKnown table terms = .ok free) :
    unionKnown table (terms.map f) = .ok (s.onSet free) := by
  obtain ⟨hcov, hmem⟩ := unionKnown_spec hfree
  have hcov' : ∀ term' ∈ terms.map f, table.Covers term' :=
    List.forall_mem_map.2 fun term hterm => h.covers (hcov term hterm)
  obtain ⟨free', hfree'⟩ := exists_unionKnown hcov'
  rw [hfree']
  congr 1
  refine RegionSet.ext_mem fun r => ?_
  rw [(unionKnown_spec hfree').2, RegionSubst.mem_onSet]
  constructor
  · rintro ⟨_, hterm', rs', hrs', hr⟩
    obtain ⟨term, hterm, rfl⟩ := List.mem_map.1 hterm'
    obtain ⟨rs, hrs, rfl⟩ := (h.knows_iff (hcov term hterm)).1 hrs'
    obtain ⟨q, hq, hr⟩ := RegionSubst.mem_onSet.1 hr
    exact ⟨q, (hmem q).2 ⟨term, hterm, rs, hrs, hq⟩, hr⟩
  · rintro ⟨q, hq, hr⟩
    obtain ⟨term, hterm, rs, hrs, hq⟩ := (hmem q).1 hq
    exact ⟨f term, List.mem_map_of_mem hterm, s.onSet rs, h.knows hrs,
      RegionSubst.mem_onSet.2 ⟨q, hq, hr⟩⟩

/-- Adding a term to open variables, if it is one that is not there yet. -/
def addOpen (table : Table) (acc : List RegionVar) (term : Term) :
    Except Fault (List RegionVar) := do
  match ← table.apply term with
  | .var v => return if acc.contains v then acc else acc ++ [v]
  | .set _ => return acc

theorem openVars_eq (table : Table) (terms : List Term) :
    openVars table terms = terms.foldlM (addOpen table) [] := rfl

theorem exists_addOpen (h : s.Acts table f) {term : Term} (hcov : table.Covers term)
    (acc : List RegionVar) :
    ∃ vars, addOpen table acc term = .ok vars ∧ addOpen table acc (f term) = .ok vars := by
  unfold addOpen
  rcases hcov.knows_or_open with ⟨rs, hrs⟩ | hopen
  · rw [Table.apply_of_knows hrs, Table.apply_of_knows (h.knows hrs)]
    exact ⟨acc, rfl, rfl⟩
  · rw [h.kept hopen]
    obtain ⟨v, rfl, -⟩ := hopen.eq_var
    rw [Table.apply_of_open hopen]
    exact ⟨_, rfl, rfl⟩

theorem exists_openVars (h : s.Acts table f) (hcov : ∀ term ∈ terms, table.Covers term) :
    ∃ vars, openVars table terms = .ok vars ∧ openVars table (terms.map f) = .ok vars := by
  simp only [openVars_eq]
  suffices hfold : ∀ acc, ∃ vars, terms.foldlM (addOpen table) acc = .ok vars ∧
      (terms.map f).foldlM (addOpen table) acc = .ok vars from hfold []
  induction terms with
  | nil => exact fun acc => ⟨acc, rfl, rfl⟩
  | cons term terms ih =>
    intro acc
    obtain ⟨hfirst, hrest⟩ := List.forall_mem_cons.1 hcov
    obtain ⟨mid, hmid, hmid'⟩ := exists_addOpen h hfirst acc
    obtain ⟨vars, hvars, hvars'⟩ := ih hrest mid
    rw [List.map_cons, List.foldlM_cons, List.foldlM_cons, hmid, hmid']
    exact ⟨vars, hvars, hvars'⟩

theorem freeRegions_mapSlots (h : s.Acts table f) {type : Ty} {free : RegionSet}
    (hfree : type.freeRegions table = .ok free) :
    (type.mapSlots f).freeRegions table = .ok (s.onSet free) := by
  cases habsent : type.isAbsent with
  | true =>
    rw [freeRegions, habsent] at hfree
    cases hfree
    rw [freeRegions, isAbsent_mapSlots, habsent]
    rfl
  | false =>
    simp only [freeRegions, habsent, Bool.false_eq_true, if_false] at hfree
    obtain ⟨terms, hslots, hunion⟩ := bind_eq_ok.1 hfree
    exact (freeRegions_eq_ok (slots_mapSlots hslots)).2 (unionKnown_map h hunion)

theorem exists_freeVars (h : s.Acts table f) {type : Ty} (hread : type.Readable table) :
    ∃ vars, type.freeVars table = .ok vars ∧ (type.mapSlots f).freeVars table = .ok vars := by
  unfold freeVars
  rw [isAbsent_mapSlots]
  cases habsent : type.isAbsent with
  | true => exact ⟨[], rfl, rfl⟩
  | false =>
    obtain ⟨terms, hslots⟩ := exists_slots hread.whole habsent
    rw [hslots, slots_mapSlots hslots]
    exact exists_openVars h (hread.covered.of_mem_slots hslots)

/-- Substituting in a type that can be read gives the type with its slots changed, and nothing else.
A slot whose set is known stands for that set with all its members replaced at once; an open
variable is kept. The regions of the type are replaced in the same way, and its open variables stay
the same. -/
theorem subst_slotwise (s : RegionSubst) {table : Table} {type : Ty} (h : type.Readable table) :
    ∃ f : Term → Term, type.subst table s = .ok (type.mapSlots f) ∧
      (∀ term rs, table.Knows term rs → ∃ rs', table.Knows (f term) rs' ∧ s.Replaces rs rs') ∧
      (∀ term, table.Open term → f term = term) ∧
      (∃ free free', type.freeRegions table = .ok free ∧
        (type.mapSlots f).freeRegions table = .ok free' ∧
        s.Replaces free free') ∧
      ∃ vars, type.freeVars table = .ok vars ∧ (type.mapSlots f).freeVars table = .ok vars := by
  obtain ⟨f, hacts, hsubst⟩ := exists_acts_of_covers h.covered s
  obtain ⟨free, hfree⟩ := h.exists_freeRegions
  refine ⟨f, hsubst, fun term rs hrs => ?_, fun term => hacts.kept, ?_, exists_freeVars hacts h⟩
  · exact ⟨s.onSet rs, hacts.knows hrs, s.replaces_onSet rs⟩
  · exact ⟨free, s.onSet free, hfree, freeRegions_mapSlots hacts hfree, s.replaces_onSet free⟩

/-- The replacements of two regions, each of which mentions the other region. -/
def crossed : RegionSubst := [(1, .ofList [2, 5]), (2, .ofList [1])]

def halfKnown : Table := ⟨[some (.singleton 1), none]⟩

/-- A function from functions, with a block that has no slot of its own, to a tuple of functions. -/
def takesBlock : Ty :=
  .fn [.fn [] [] .absent (some (.set (.ofList [2, 3])))] [.fn [] [] (.con "Int" "") none]
    (.tuple [.fn [] [] .absent (some (.var 1)), .fn [] [] .absent (some (.var 2)),
      .fn [] [] .absent (some (.set (.ofList [1, 4])))])
    none

theorem readable_takesBlock : takesBlock.Readable halfKnown where
  covered := by
    have hone : halfKnown.Covers (.var 1) := ⟨_, rfl⟩
    have htwo : halfKnown.Covers (.var 2) := ⟨_, rfl⟩
    simp [takesBlock, EverySlot, EverySlots, Table.covers_set, hone, htwo]
  whole := by simp [takesBlock, Whole, Wholes, isAbsent]

/-- The first region is replaced by a set with the second one, which is not replaced again. -/
theorem subst_slotwise_takesBlock : takesBlock.Readable halfKnown ∧
    ∃ type', takesBlock.subst halfKnown crossed = .ok type' ∧
      type'.freeRegions halfKnown = .ok (.ofList [2, 4, 5]) ∧
      type'.freeVars halfKnown = .ok [2] := by
  obtain ⟨f, hsubst, -, -, ⟨free, free', hfree, hfree', hreplaces⟩, vars, hvars, hvars'⟩ :=
    subst_slotwise crossed readable_takesBlock
  refine ⟨readable_takesBlock, _, hsubst, ?_, ?_⟩
  · rw [show takesBlock.freeRegions halfKnown = .ok (.ofList [1, 4]) from rfl] at hfree
    cases hfree
    rw [hfree', hreplaces.unique (crossed.replaces_onSet _)]
    rfl
  · rw [show takesBlock.freeVars halfKnown = .ok [2] from rfl] at hvars
    rw [hvars', hvars]

end Ty

end RegionCapture
