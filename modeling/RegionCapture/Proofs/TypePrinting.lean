import RegionCapture.Proofs.Substitution

/-!
# The two texts of a type

A type is printed as it stands (`Ty.text`) or for a reader, with the known slots filled in
(`Ty.format`). The text for a reader, with regions by their numbers, is that of the type whose known
slots hold their sets already (`Ty.text_mapSlots`), and replacing a region by itself makes such a
type (`Table.fills_onTerm`). Main statement `Ty.format_eq_text_filled`. An absent type has a text
only for a reader, so the type has to be complete (`Ty.Complete`).
-/

namespace RegionCapture

/-! ## Filled slots -/

/-- A change of slots that puts known sets in place of their variables, and keeps open variables. -/
structure Table.Fills (table : Table) (f : Term → Term) : Prop where
  known : ∀ {term rs}, table.Knows term rs → f term = .set rs
  kept : ∀ {term}, table.Open term → f term = term

/-- No variable with a known set is in the slot. -/
def Table.Unfilled (table : Table) (term : Term) : Prop := ∀ v, term = .var v → table.Open term

namespace RegionSubst

/-- Replacing a region by itself changes no set. -/
theorem onSet_self (r : Region) (rs : RegionSet) :
    RegionSubst.onSet [(r, .singleton r)] rs = rs := by
  have himage : ∀ q, RegionSubst.image [(r, .singleton r)] q = .singleton q := by
    intro q
    by_cases hq : q = r
    · subst hq
      simp [image]
    · have hlookup : List.lookup q [(r, RegionSet.singleton r)] = none := by
        simp [List.lookup_eq_none_iff, hq]
      simp [image, hlookup]
  refine RegionSet.ext_mem fun q => ?_
  rw [mem_onSet]
  simp [himage]

end RegionSubst

namespace Table

variable {table : Table} {f : Term → Term} {term : Term}

theorem fills_onTerm (table : Table) (r : Region) :
    table.Fills (RegionSubst.onTerm [(r, .singleton r)] table) where
  known h := by rw [RegionSubst.onTerm_of_knows h, RegionSubst.onSet_self]
  kept := RegionSubst.onTerm_of_open

theorem Fills.eq_of_unfilled (h : table.Fills f) (hterm : table.Unfilled term) : f term = term := by
  cases term with
  | set rs => exact h.known (knows_set.2 rfl)
  | var v => exact h.kept (hterm v rfl)

end Table

namespace Ty

variable {table : Table} {f : Term → Term}

mutual
theorem mapSlots_eq_self : ∀ {t : Ty}, t.EverySlot (fun term => f term = term) → t.mapSlots f = t
  | absent, _ | con _ _, _ => by rw [mapSlots]
  | app ctor args, h => by
    simp only [EverySlot] at h
    rw [mapSlots, mapSlots_eq_self h.1, mapSlotsAll_eq_self h.2]
  | tuple elems, h => by
    simp only [EverySlot] at h
    rw [mapSlots, mapSlotsAll_eq_self h]
  | fn params blocks result capture, h => by
    simp only [EverySlot] at h
    obtain ⟨hparams, hblocks, hresult, hcapture⟩ := h
    rw [mapSlots, mapSlotsAll_eq_self hparams, mapSlotsAll_eq_self hblocks,
      mapSlots_eq_self hresult]
    cases capture with
    | none => rfl
    | some term => rw [Option.map_some, hcapture term rfl]

theorem mapSlotsAll_eq_self :
    ∀ {ts : List Ty}, EverySlots (fun term => f term = term) ts → mapSlotsAll f ts = ts
  | [], _ => by rw [mapSlotsAll]
  | t :: ts, h => by
    simp only [EverySlots] at h
    rw [mapSlotsAll, mapSlots_eq_self h.1, mapSlotsAll_eq_self h.2]
end

/-! ## Printing a type with its slots filled in -/

mutual
/-- There is a type, and nothing but results of functions is absent from it. -/
def Complete : Ty → Prop
  | absent => False
  | con _ _ => True
  | app ctor args => ctor.Complete ∧ Completes args
  | tuple elems => Completes elems
  | fn params blocks result _ =>
    Completes params ∧ Completes blocks ∧ (result.isAbsent = false → result.Complete)

/-- All types in a list are complete. -/
def Completes : List Ty → Prop
  | [] => True
  | t :: ts => t.Complete ∧ Completes ts
end

/-- A slot as it stands at the end of a function type. -/
def slotText : Option Term → String
  | some c => " at " ++ c.text
  | none => ""

def resultText (result : Ty) : Except Fault String :=
  if result.isAbsent then .ok "Unit" else result.text

theorem text_fn (params blocks : List Ty) (result : Ty) (capture : Option Term) :
    (fn params blocks result capture).text = (do
      let params ← texts params
      let blocks ← texts blocks
      let result ← result.resultText
      return arrow params blocks result (slotText capture)) := by
  cases habsent : result.isAbsent <;> cases capture <;>
    simp [text, resultText, slotText, habsent] <;> rfl

theorem formatSlot_eq (h : table.Fills f) {slot : Option Term}
    (hslot : ∀ term, slot = some term → table.Covers term) :
    formatSlot table Region.text slot = .ok (slotText (slot.map f)) := by
  cases slot with
  | none => rfl
  | some term =>
    rcases (hslot term rfl).knows_or_open with ⟨rs, hrs⟩ | hopen
    · have hconcrete : table.concrete term = .ok (some rs) := hrs
      simp only [formatSlot, hconcrete, Option.map_some, h.known hrs]
      rfl
    · have hconcrete : table.concrete term = .ok none := hopen
      simp only [formatSlot, hconcrete, Option.map_some, h.kept hopen]
      rfl

mutual
/-- The type with its known slots filled in reads like the type for a reader. -/
theorem text_mapSlots (h : table.Fills f) : ∀ {t : Ty}, t.Complete → t.EverySlot table.Covers →
    (t.mapSlots f).text = t.format table Region.text
  | absent, hcomplete, _ => by simp [Complete] at hcomplete
  | con name module, _, _ => by rw [mapSlots, text, format]
  | app ctor args, hcomplete, hcov => by
    simp only [Complete] at hcomplete
    simp only [EverySlot] at hcov
    rw [mapSlots, text, format, texts_mapSlotsAll h hcomplete.2 hcov.2,
      text_mapSlots h hcomplete.1 hcov.1]
  | tuple elems, hcomplete, hcov => by
    simp only [Complete] at hcomplete
    simp only [EverySlot] at hcov
    rw [mapSlots, text, format, texts_mapSlotsAll h hcomplete hcov]
  | fn params blocks result capture, hcomplete, hcov => by
    simp only [Complete] at hcomplete
    simp only [EverySlot] at hcov
    obtain ⟨hparams, hblocks, hresult⟩ := hcomplete
    obtain ⟨hparamsCov, hblocksCov, hresultCov, hcapture⟩ := hcov
    -- an absent result is the one absent part that both texts have a word for
    have hprinted : (result.mapSlots f).resultText = result.format table Region.text := by
      unfold resultText
      rw [isAbsent_mapSlots]
      cases habsent : result.isAbsent with
      | true =>
        cases result with
        | absent => rw [format]; rfl
        | _ => cases habsent
      | false =>
        rw [if_neg Bool.false_ne_true]
        exact text_mapSlots h (hresult habsent) hresultCov
    rw [mapSlots, text_fn, format, texts_mapSlotsAll h hparams hparamsCov,
      texts_mapSlotsAll h hblocks hblocksCov, hprinted, formatSlot_eq h hcapture]
    rfl

theorem texts_mapSlotsAll (h : table.Fills f) :
    ∀ {ts : List Ty}, Completes ts → EverySlots table.Covers ts →
    texts (mapSlotsAll f ts) = formatAll table Region.text ts
  | [], _, _ => by rw [mapSlotsAll, texts, formatAll]
  | t :: ts, hcomplete, hcov => by
    simp only [Completes] at hcomplete
    simp only [EverySlots] at hcov
    rw [mapSlotsAll, texts, formatAll, text_mapSlots h hcomplete.1 hcov.1,
      texts_mapSlotsAll h hcomplete.2 hcov.2]
end

/-- The text of a type for a reader, with regions by their numbers, is the text of the type in which
a region is replaced by itself; that is the type with every known variable replaced by its set.
Where no variable is known, it is the text of the type itself. -/
theorem format_eq_text_filled {table : Table} {type : Ty} (hcomplete : type.Complete)
    (hcov : type.EverySlot table.Covers) (r : Region) :
    ∃ text f, type.format table Region.text = .ok text ∧
      type.subst table [(r, .singleton r)] = .ok (type.mapSlots f) ∧ table.Fills f ∧
      (type.mapSlots f).text = .ok text ∧
      (type.EverySlot table.Unfilled → type.text = .ok text) := by
  obtain ⟨text, htext⟩ : ∃ text, type.format table Region.text = .ok text := exists_format hcov
  obtain ⟨type', hsubst⟩ := exists_substAll_of_covers (s := [(r, .singleton r)]) hcov
  have hfills := table.fills_onTerm r
  have hfilled : (type.mapSlots (RegionSubst.onTerm [(r, .singleton r)] table)).text =
      .ok text := by
    rw [text_mapSlots hfills hcomplete hcov, htext]
  refine ⟨text, _, htext, ?_, hfills, hfilled, fun hunfilled => ?_⟩
  · rw [← eq_mapSlots_of_substAll hsubst]
    exact hsubst
  · have hself := hunfilled.imp fun _ => hfills.eq_of_unfilled
    rwa [mapSlots_eq_self hself] at hfilled

def noneKnown : Table := ⟨[none, none]⟩

theorem complete_takesBlock : takesBlock.Complete := by
  simp [takesBlock, Complete, Completes, isAbsent]

/-- A known variable is printed as its set and an open one by its number; where none is known all
stay as they are. -/
theorem format_eq_text_filled_takesBlock :
    takesBlock.Complete ∧ takesBlock.EverySlot halfKnown.Covers ∧
    (∃ filled, takesBlock.subst halfKnown [(4, .singleton 4)] = .ok filled ∧
      filled.text = .ok ("(() => Unit at \x7br2, r3\x7d) \x7b() => Int\x7d => " ++
        "(() => Unit at \x7br1\x7d, () => Unit at ?r2, () => Unit at \x7br1, r4\x7d)")) ∧
    takesBlock.format noneKnown Region.text = takesBlock.text := by
  refine ⟨complete_takesBlock, readable_takesBlock.covered, ?_, ?_⟩
  · obtain ⟨text, f, hformat, hsubst, -, htext, -⟩ :=
      format_eq_text_filled complete_takesBlock readable_takesBlock.covered 4
    refine ⟨_, hsubst, ?_⟩
    rw [htext, ← hformat]
    rfl
  · have hone : noneKnown.Open (.var 1) := rfl
    have htwo : noneKnown.Open (.var 2) := rfl
    have hcov : takesBlock.EverySlot noneKnown.Covers := by
      simp [takesBlock, EverySlot, EverySlots, Table.covers_set, hone.covers, htwo.covers]
    have hunfilled : takesBlock.EverySlot noneKnown.Unfilled := by
      simp [takesBlock, EverySlot, EverySlots, Table.Unfilled, hone, htwo]
    obtain ⟨text, f, hformat, -, -, -, htext⟩ := format_eq_text_filled complete_takesBlock hcov 4
    rw [hformat, htext hunfilled]

end Ty

end RegionCapture
