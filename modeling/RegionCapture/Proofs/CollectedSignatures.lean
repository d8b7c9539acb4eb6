import Mathlib.Data.List.Forall2
import RegionCapture.Proofs.SignatureTable

/-!
# Collected signatures

Which signatures a unit hands to other units. A symbol is offered if it is exported, can be named
and is annotated (`SymbolTable.Offers`); one that fails any of the three does not count at all, so
it cannot hide a later symbol of its name. Of the offered symbols of one name the first declared one
has its signature collected (`Signature.exists_firstOfName`), and the signatures stand in the order
of the declarations. Main statement `Signature.collect_one_per_name`.
-/

namespace RegionCapture

namespace SymbolTable

/-! ## Offered symbols -/

theorem mem_exported {symbols : SymbolTable} {id : SymbolId} {s : Symbol} :
    (id, s) ∈ symbols.exported ↔ symbols.lookup id = some s ∧ s.exported = true := by
  unfold exported
  rw [List.mem_map]
  constructor
  · rintro ⟨⟨s', n⟩, hmem, heq⟩
    obtain ⟨rfl, rfl⟩ := Prod.mk.inj heq
    obtain ⟨hmem, hexported⟩ := List.mem_filter.1 hmem
    obtain ⟨hle, hget⟩ := List.mem_zipIdx_iff_le_and_getElem?_sub.1 hmem
    cases n with
    | zero => cases hle
    | succ n => exact ⟨hget, hexported⟩
  · rintro ⟨hlookup, hexported⟩
    cases id with
    | zero => cases hlookup
    | succ n =>
      refine ⟨(s, n + 1), List.mem_filter.2 ⟨?_, hexported⟩, rfl⟩
      exact List.mem_zipIdx_iff_le_and_getElem?_sub.2 ⟨by omega, hlookup⟩

/-- Exported symbols are listed in the order of their numbers. -/
theorem pairwise_exported (symbols : SymbolTable) :
    symbols.exported.Pairwise fun e e' => e.1 < e'.1 := by
  unfold exported
  rw [List.pairwise_map]
  refine List.Pairwise.filter _ ?_
  have hnumbers : ((symbols.entries.zipIdx 1).map Prod.snd).Pairwise (· < ·) := by
    rw [List.zipIdx_map_snd]
    exact List.pairwise_lt_range'
  exact List.pairwise_map.1 hnumbers

/-- The unit offers a symbol to others: it is exported, can be named, and the regions it captures
are known. -/
structure Offers (symbols : SymbolTable) (a : Annotations) (id : SymbolId) (s : Symbol)
    (regs : RegionSet) : Prop where
  declared : symbols.lookup id = some s
  exported : s.exported = true
  named : s.kind ≠ .lambda
  annotated : a.symbol? id = some regs

/-- The offered symbols with their numbers and regions, in declaration order. -/
def offered (symbols : SymbolTable) (a : Annotations) : List (SymbolId × Symbol × RegionSet) :=
  symbols.exported.filterMap fun (id, s) =>
    if s.kind = .lambda then none else (a.symbol? id).map fun regs => (id, s, regs)

variable {symbols : SymbolTable} {a : Annotations}

theorem mem_offered {id : SymbolId} {s : Symbol} {regs : RegionSet} :
    (id, s, regs) ∈ symbols.offered a ↔ symbols.Offers a id s regs := by
  unfold offered
  rw [List.mem_filterMap]
  constructor
  · rintro ⟨⟨id', s'⟩, hmem, heq⟩
    by_cases hkind : s'.kind = .lambda
    · simp [hkind] at heq
    · simp only [hkind, if_false, Option.map_eq_some_iff, Prod.mk.injEq] at heq
      obtain ⟨regs', hregs, rfl, rfl, rfl⟩ := heq
      obtain ⟨hlookup, hexported⟩ := mem_exported.1 hmem
      exact ⟨hlookup, hexported, hkind, hregs⟩
  · intro h
    refine ⟨(id, s), mem_exported.2 ⟨h.declared, h.exported⟩, ?_⟩
    simp [h.named, h.annotated]

theorem pairwise_offered (symbols : SymbolTable) (a : Annotations) :
    (symbols.offered a).Pairwise fun k k' => k.1 < k'.1 := by
  unfold offered
  refine List.pairwise_filterMap.2 (symbols.pairwise_exported.imp ?_)
  rintro ⟨id, s⟩ ⟨id', s'⟩ hlt k hk k' hk'
  by_cases hkind : s.kind = .lambda
  · simp [hkind] at hk
  by_cases hkind' : s'.kind = .lambda
  · simp [hkind'] at hk'
  simp only [hkind, hkind', if_false, Option.map_eq_some_iff] at hk hk'
  obtain ⟨regs, -, rfl⟩ := hk
  obtain ⟨regs', -, rfl⟩ := hk'
  exact hlt

/-- The unit offers a symbol, and of all symbols of its name that it offers this one is declared
first. -/
structure OffersFirst (symbols : SymbolTable) (a : Annotations) (id : SymbolId) (s : Symbol)
    (regs : RegionSet) : Prop
    extends symbols.Offers a id s regs where
  first : ∀ {id' s' regs'}, symbols.Offers a id' s' regs' → s'.name = s.name → id ≤ id'

/-- Among the offered symbols of a name one is declared first. -/
theorem Offers.exists_first {id : SymbolId} {s : Symbol} {regs : RegionSet}
    (h : symbols.Offers a id s regs) :
    ∃ id' s' regs', symbols.OffersFirst a id' s' regs' ∧ s'.name = s.name := by
  classical
  have hexists : ∃ n, ∃ s' regs', symbols.Offers a n s' regs' ∧ s'.name = s.name :=
    ⟨id, s, regs, h, rfl⟩
  obtain ⟨s', regs', hoffers, hname⟩ := Nat.find_spec hexists
  refine ⟨Nat.find hexists, s', regs', ⟨hoffers, ?_⟩, hname⟩
  intro id'' s'' regs'' hoffers' hname'
  exact Nat.find_min' hexists ⟨s'', regs'', hoffers', hname'.trans hname⟩

end SymbolTable

namespace Signature

variable {module : String} {symbols : SymbolTable} {a : Annotations} {runId : RunId}

theorem nameable_eq_map_offered : nameable symbols a = (symbols.offered a).map Prod.snd := by
  unfold nameable SymbolTable.offered
  rw [List.map_filterMap]
  refine congrArg (List.filterMap · _) ?_
  funext ⟨id, s⟩
  by_cases hkind : s.kind = .lambda
  · simp [hkind]
  · simp [hkind, Function.comp_def]

/-! ## The first of a name -/

/-- A numbered entry is there, its name was not seen before, and no entry of its name has a smaller
number. -/
def FirstIn (seen : List String) (ks : List (SymbolId × Symbol × RegionSet))
    (k : SymbolId × Symbol × RegionSet) :
    Prop :=
  k ∈ ks ∧ k.2.1.name ∉ seen ∧ ∀ k' ∈ ks, k'.2.1.name = k.2.1.name → k.1 ≤ k'.1

section
variable {seen : List String} {ks : List (SymbolId × Symbol × RegionSet)}
  {k₀ k : SymbolId × Symbol × RegionSet}

/-- An entry of a seen name takes nothing from the later ones, whose names are not seen. -/
theorem firstIn_cons_of_seen (hseen : k₀.2.1.name ∈ seen) :
    FirstIn seen (k₀ :: ks) k ↔ FirstIn seen ks k := by
  unfold FirstIn
  constructor
  · rintro ⟨hk, hnew, hfirst⟩
    rcases List.mem_cons.1 hk with rfl | hk
    · exact absurd hseen hnew
    · exact ⟨hk, hnew, (List.forall_mem_cons.1 hfirst).2⟩
  · rintro ⟨hk, hnew, hfirst⟩
    refine ⟨List.mem_cons_of_mem _ hk, hnew, List.forall_mem_cons.2 ⟨?_, hfirst⟩⟩
    intro hname
    exact absurd (hname ▸ hseen) hnew

/-- An entry of a new name is the first of that name if it has the smallest number, and hides the
others. -/
theorem firstIn_cons_of_new (hnew₀ : k₀.2.1.name ∉ seen) (hleast : ∀ k ∈ ks, k₀.1 < k.1) :
    FirstIn seen (k₀ :: ks) k ↔ k = k₀ ∨ FirstIn (k₀.2.1.name :: seen) ks k := by
  unfold FirstIn
  constructor
  · rintro ⟨hk, hnew, hfirst⟩
    obtain ⟨hfirst₀, hfirst⟩ := List.forall_mem_cons.1 hfirst
    rcases List.mem_cons.1 hk with rfl | hk
    · exact .inl rfl
    · refine .inr ⟨hk, ?_, hfirst⟩
      rw [List.mem_cons, not_or]
      refine ⟨fun hname => ?_, hnew⟩
      exact Nat.not_lt.2 (hfirst₀ hname.symm) (hleast k hk)
  · rintro (rfl | ⟨hk, hnew, hfirst⟩)
    · refine ⟨List.mem_cons_self, hnew₀, List.forall_mem_cons.2 ⟨fun _ => Nat.le_refl _, ?_⟩⟩
      intro k' hk' _
      exact Nat.le_of_lt (hleast k' hk')
    · rw [List.mem_cons, not_or] at hnew
      refine ⟨List.mem_cons_of_mem _ hk, hnew.2, List.forall_mem_cons.2 ⟨?_, hfirst⟩⟩
      intro hname
      exact absurd hname.symm hnew.1

end

/-- From entries in the order of their numbers those are taken that are first of their names, in the
same order. -/
theorem exists_firstOfName (seen : List String) {ks : List (SymbolId × Symbol × RegionSet)}
    (hks : ks.Pairwise fun k k' => k.1 < k'.1) :
    ∃ firsts : List (SymbolId × Symbol × RegionSet), firsts.Sublist ks ∧
      firstOfName seen (ks.map Prod.snd) = firsts.map Prod.snd ∧
      ∀ k, k ∈ firsts ↔ FirstIn seen ks k := by
  induction ks generalizing seen with
  | nil => exact ⟨[], .slnil, rfl, by simp [FirstIn]⟩
  | cons k₀ ks ih =>
    obtain ⟨hleast, hks⟩ := List.pairwise_cons.1 hks
    by_cases hseen : k₀.2.1.name ∈ seen
    · obtain ⟨firsts, hsub, heq, hmem⟩ := ih seen hks
      refine ⟨firsts, hsub.cons k₀, ?_, fun k => ?_⟩
      · simp [firstOfName, hseen, heq]
      · rw [hmem, firstIn_cons_of_seen hseen]
    · obtain ⟨firsts, hsub, heq, hmem⟩ := ih (k₀.2.1.name :: seen) hks
      refine ⟨k₀ :: firsts, hsub.cons_cons k₀, ?_, fun k => ?_⟩
      · simp [firstOfName, hseen, heq]
      · rw [List.mem_cons, hmem, firstIn_cons_of_new hseen hleast]

/-- The offered symbols that are first of their names, in the order in which their signatures are
collected. -/
theorem exists_firsts (module : String) (symbols : SymbolTable) (a : Annotations) (runId : RunId) :
    ∃ firsts : List (SymbolId × Symbol × RegionSet), firsts.Pairwise (fun k k' => k.1 < k'.1) ∧
      collect module symbols a runId =
        firsts.map (fun k => ofSymbol module symbols runId k.2.1 k.2.2) ∧
      ∀ k, k ∈ firsts ↔ symbols.OffersFirst a k.1 k.2.1 k.2.2 := by
  obtain ⟨firsts, hsub, heq, hmem⟩ := exists_firstOfName [] (symbols.pairwise_offered a)
  refine ⟨firsts, (symbols.pairwise_offered a).sublist hsub, ?_, fun k => ?_⟩
  · unfold collect
    rw [nameable_eq_map_offered, heq, List.map_map]
    rfl
  · rw [hmem]
    constructor
    · rintro ⟨hk, -, hfirst⟩
      exact ⟨SymbolTable.mem_offered.1 hk,
        fun hoffers => hfirst _ (SymbolTable.mem_offered.2 hoffers)⟩
    · intro h
      refine ⟨SymbolTable.mem_offered.2 h.toOffers, List.not_mem_nil, fun k' hk' => ?_⟩
      exact h.first (SymbolTable.mem_offered.1 hk')

/-! ## One signature for each name -/

/-- The signature is that of the symbol with the given number, the first of its name that the unit
offers. -/
def Describes (module : String) (symbols : SymbolTable) (a : Annotations) (runId : RunId)
    (id : SymbolId) (sig : Signature) : Prop :=
  ∃ s regs, symbols.OffersFirst a id s regs ∧ sig.symbol = s.name ∧ sig.kind = s.kind.text ∧
    (∃ rs : List Region, rs.Pairwise (· < ·) ∧ (∀ r, r ∈ rs ↔ r ∈ regs) ∧
      sig.regions = some (rs.map fun r => symbols.name r.owner)) ∧
    sig.module = module ∧ sig.runId = runId

theorem describes_ofSymbol {id : SymbolId} {s : Symbol} {regs : RegionSet}
    (h : symbols.OffersFirst a id s regs) :
    Describes module symbols a runId id (ofSymbol module symbols runId s regs) :=
  ⟨s, regs, h, rfl, rfl, ⟨regs.elems, regs.ascending, fun _ => Iff.rfl, rfl⟩, rfl, rfl⟩

/-- One signature is collected for each name of an offered symbol: the one of the symbol of that
name declared first, and the signatures stand in the order of these symbols. -/
theorem collect_one_per_name (module : String) (symbols : SymbolTable) (a : Annotations)
    (runId : RunId) :
    ((collect module symbols a runId).map symbol).Nodup ∧
      (∀ name, (∃ sig ∈ collect module symbols a runId, sig.symbol = name) ↔
        ∃ id s regs, symbols.Offers a id s regs ∧ s.name = name) ∧
      ∃ ids : List SymbolId, ids.Pairwise (· < ·) ∧
        List.Forall₂ (Describes module symbols a runId) ids (collect module symbols a runId) := by
  obtain ⟨firsts, hordered, heq, hmem⟩ := exists_firsts module symbols a runId
  refine ⟨List.pairwise_map.2 (pairwise_collect module symbols a runId), fun name => ⟨?_, ?_⟩, ?_⟩
  · rintro ⟨sig, hsig, rfl⟩
    rw [heq] at hsig
    obtain ⟨k, hk, rfl⟩ := List.mem_map.1 hsig
    exact ⟨k.1, k.2.1, k.2.2, ((hmem k).1 hk).toOffers, rfl⟩
  · rintro ⟨id, s, regs, hoffers, rfl⟩
    obtain ⟨id', s', regs', hfirst, hname⟩ := hoffers.exists_first
    refine ⟨ofSymbol module symbols runId s' regs', ?_, hname⟩
    rw [heq]
    exact List.mem_map.2 ⟨(id', s', regs'), (hmem _).2 hfirst, rfl⟩
  · refine ⟨firsts.map Prod.fst, List.pairwise_map.2 hordered, ?_⟩
    rw [heq, List.forall₂_map_left_iff, List.forall₂_map_right_iff]
    exact List.forall₂_same.2 fun k hk => describes_ofSymbol ((hmem k).1 hk)

-- neither an anonymous function nor a symbol without annotation hides a later symbol of the same
-- name
example (runId : RunId) :
    collect "unit"
      ⟨[{ name := "f", kind := .lambda, exported := true },
        { name := "f", kind := .value, exported := true },
          { name := "f", kind := .cell, exported := true }, { name := "g", exported := true },
        { name := "f", exported := true }]⟩
      ((((({} : Annotations).annotateSymbol 1 ∅).annotateSymbol 3 (.ofList [4, 2])).annotateSymbol 4
        ∅).annotateSymbol 5 ∅)
      runId =
    [{ module := "unit", symbol := "f", kind := "variable", regions := some ["f", "g"], runId },
      { module := "unit", symbol := "g", kind := "function", regions := some [], runId }] := by
  rfl

end Signature

end RegionCapture
