import Mathlib.Logic.Equiv.Basic
import RegionCapture.Proofs.Slots
import RegionCapture.Proofs.Traversal

/-!
# Renumbering symbols

A permutation of symbol numbers acts on everything that mentions symbols or regions: sets, tables,
equations and types. All that the check computes from them commutes with it: the operations on sets,
the solver (`EquationStore.solve_renumber`), the regions of a type (`Ty.freeRegions_renumber`),
substitution (`Ty.subst_renumber`) and the pairing of slots (`Ty.pairs_renumber`).
-/

namespace RegionCapture

/-- What is found from an image is the image of what is found. -/
theorem map_bind_map {ε α α' β β' : Type} {x : Except ε α} {f : α → Except ε β}
    {f' : α' → Except ε β'} {g : α → α'} {k : β → β'} (h : ∀ a, f' (g a) = (f a).map k) :
    (x.map g >>= f') = (x >>= f).map k := by
  cases x with
  | error e => rfl
  | ok a => exact h a

/-! ## Sets -/

namespace RegionSet

def renumber (π : Equiv.Perm SymbolId) (s : RegionSet) : RegionSet := .ofList (s.elems.map π)

variable {π : Equiv.Perm SymbolId} {r : Region} {s o : RegionSet}

@[simp] theorem mem_renumber : r ∈ s.renumber π ↔ π.symm r ∈ s := by
  rw [renumber, mem_ofList, List.mem_map]
  constructor
  · rintro ⟨q, hq, rfl⟩
    rw [π.symm_apply_apply]
    exact hq
  · intro hr
    exact ⟨π.symm r, hr, π.apply_symm_apply r⟩

variable (π s o)

@[simp] theorem renumber_empty : (∅ : RegionSet).renumber π = ∅ := rfl

theorem renumber_union : (s ∪ o).renumber π = s.renumber π ∪ o.renumber π :=
  ext_mem fun r => by simp

theorem renumber_sdiff : (s \ o).renumber π = s.renumber π \ o.renumber π :=
  ext_mem fun r => by simp

theorem renumber_inter : (s ∩ o).renumber π = s.renumber π ∩ o.renumber π :=
  ext_mem fun r => by simp

theorem renumber_ofList (rs : List Region) : (ofList rs).renumber π = ofList (rs.map π) :=
  ext_mem fun r => by simp [← Equiv.eq_symm_apply]

theorem renumber_add (r : Region) : (s.add r).renumber π = (s.renumber π).add (π r) :=
  ext_mem fun q => by simp [Equiv.symm_apply_eq]

theorem renumber_singleton (r : Region) : (singleton r).renumber π = singleton (π r) :=
  renumber_ofList π [r]

theorem renumber_injective : Function.Injective (renumber π) := by
  intro s o h
  refine ext_mem fun r => ?_
  have hr : π r ∈ s.renumber π ↔ π r ∈ o.renumber π := by rw [h]
  simpa using hr

@[simp] theorem contains_renumber (r : Region) : (s.renumber π).contains (π r) = s.contains r := by
  rw [Bool.eq_iff_iff, contains_iff, contains_iff, mem_renumber, π.symm_apply_apply]

@[simp] theorem subsetOf_renumber : (s.renumber π).subsetOf (o.renumber π) = s.subsetOf o := by
  rw [Bool.eq_iff_iff, subsetOf_iff, subsetOf_iff]
  constructor
  · intro h r hr
    have := h (π r) (by simpa using hr)
    simpa using this
  · intro h r hr
    exact mem_renumber.2 (h _ (mem_renumber.1 hr))

@[simp] theorem isEmpty_renumber : (s.renumber π).isEmpty = s.isEmpty := by
  rw [Bool.eq_iff_iff, isEmpty_iff, isEmpty_iff]
  constructor
  · intro h r hr
    exact h (π r) (by simpa using hr)
  · intro h r hr
    exact h _ (mem_renumber.1 hr)

end RegionSet

theorem Check.unionAll_renumber (π : Equiv.Perm SymbolId) (regs : List RegionSet) :
    unionAll (regs.map (RegionSet.renumber π)) = (unionAll regs).renumber π :=
  RegionSet.ext_mem fun r => by simp [mem_unionAll]

/-! ## Tables -/

def Term.renumber (π : Equiv.Perm SymbolId) : Term → Term
  | .set s => .set (s.renumber π)
  | .var v => .var v

def Equation.renumber (π : Equiv.Perm SymbolId) (e : Equation) : Equation :=
  ⟨e.left.renumber π, e.right.renumber π⟩

def SolveError.renumber (π : Equiv.Perm SymbolId) : SolveError → SolveError
  | .mismatch l r => .mismatch (l.renumber π) (r.renumber π)
  | .alreadyResolved v current wanted => .alreadyResolved v (current.renumber π) (wanted.renumber π)
  | .fault f => .fault f

namespace Table

def renumber (π : Equiv.Perm SymbolId) (t : Table) : Table :=
  ⟨t.cells.map (Option.map (RegionSet.renumber π))⟩

variable (π : Equiv.Perm SymbolId) (t : Table) (v : RegionVar) (s : RegionSet) (term : Term)

theorem cell?_renumber :
    (t.renumber π).cell? v = (t.cell? v).map (Option.map (RegionSet.renumber π)) := by
  cases v with
  | zero => rfl
  | succ n => exact List.getElem?_map

theorem lookup_renumber :
    (t.renumber π).lookup v = (t.lookup v).map (Option.map (RegionSet.renumber π)) := by
  rw [lookup, lookup, cell?_renumber]
  cases t.cell? v <;> rfl

theorem concrete_renumber :
    (t.renumber π).concrete (term.renumber π) =
      (t.concrete term).map (Option.map (RegionSet.renumber π)) := by
  cases term with
  | set s => rfl
  | var v => exact lookup_renumber π t v

theorem apply_renumber :
    (t.renumber π).apply (term.renumber π) = (t.apply term).map (Term.renumber π) := by
  cases term with
  | set s => rfl
  | var v =>
    show ((t.renumber π).lookup v >>= _) = _
    rw [lookup_renumber]
    refine map_bind_map fun known => ?_
    cases known <;> rfl

theorem write_renumber : (t.write v s).renumber π = (t.renumber π).write v (s.renumber π) :=
  congrArg Table.mk List.map_set

theorem resolve_renumber : (t.renumber π).resolve v (s.renumber π) =
    ((t.resolve v s).map (renumber π)).mapError (SolveError.renumber π) := by
  unfold resolve
  rw [cell?_renumber]
  rcases t.cell? v with _ | _ | current
  · rfl
  · exact congrArg Except.ok (write_renumber π t v s).symm
  · simp only [Option.map_some]
    by_cases h : current = s
    · rw [if_pos h, if_pos (congrArg _ h)]
      rfl
    · rw [if_neg h, if_neg fun he => h (RegionSet.renumber_injective π he)]
      rfl

theorem unresolved_renumber : (t.renumber π).unresolved = t.unresolved := by
  simp only [unresolved, renumber, List.countP_map]
  refine congrFun (congrArg List.countP ?_) _
  funext c
  cases c <;> rfl

end Table

/-! ## Solving -/

def Scan.renumber (π : Equiv.Perm SymbolId) (r : Scan) : Scan where
  table := r.table.renumber π
  kept := r.kept.map (Equation.renumber π)
  resolved := r.resolved
  error := r.error.map (SolveError.renumber π)

theorem Table.scan_renumber (π : Equiv.Perm SymbolId) (t : Table) (es : List Equation) :
    (t.renumber π).scan (es.map (Equation.renumber π)) = (t.scan es).renumber π := by
  induction es generalizing t with
  | nil => rfl
  | cons e es ih =>
    rw [List.map_cons, scan, scan]
    simp only [Equation.renumber, apply_renumber]
    rcases t.apply e.left with f | (l | v) <;> rcases t.apply e.right with f' | (r | w) <;>
      simp only [Except.map, Term.renumber, resolve_renumber]
    case error.error | error.ok.set | error.ok.var | ok.set.error | ok.var.error => rfl
    case ok.set.ok.set =>
      by_cases h : l = r
      · rw [if_pos h, if_pos (congrArg _ h)]
        exact ih t
      · rw [if_neg h, if_neg fun he => h (RegionSet.renumber_injective π he)]
        rfl
    case ok.var.ok.var =>
      by_cases h : v = w
      · rw [if_pos h, if_pos h]
        exact ih t
      · rw [if_neg h, if_neg h, ih t]
        rfl
    case ok.set.ok.var =>
      rcases t.resolve w l with err | u
      · rfl
      · simp only [Except.mapError, ih u]
        rfl
    case ok.var.ok.set =>
      rcases t.resolve v r with err | u
      · rfl
      · simp only [Except.mapError, ih u]
        rfl

namespace EquationStore

def renumber (π : Equiv.Perm SymbolId) (s : EquationStore) : EquationStore where
  table := s.table.renumber π
  pending := s.pending.map (Equation.renumber π)
  stats := s.stats

variable (π : Equiv.Perm SymbolId)

theorem scans_renumber (fuel : Nat) (s : EquationStore) :
    scans fuel (s.renumber π) =
      ((scans fuel s).1.mapError (SolveError.renumber π), (scans fuel s).2.renumber π) := by
  induction fuel generalizing s with
  | zero => rfl
  | succ fuel ih =>
    have hscan : (s.renumber π).table.scan (s.renumber π).pending =
        (s.table.scan s.pending).renumber π :=
      Table.scan_renumber π s.table s.pending
    have hempty : (s.renumber π).pending.isEmpty = s.pending.isEmpty := List.isEmpty_map
    rw [scans, scans]
    simp only [hempty, hscan]
    cases s.pending.isEmpty with
    | true => rfl
    | false =>
      obtain ⟨table, kept, resolved, error⟩ := s.table.scan s.pending
      rcases error with _ | (⟨l, r⟩ | ⟨v, current, wanted⟩ | f)
      · cases resolved with
        | zero => rfl
        | succ n =>
          exact ih ⟨table, kept, { s.stats with
            passes := s.stats.passes + 1
            lastPasses := s.stats.lastPasses + 1
            resolved := s.stats.resolved + (n + 1) }⟩
      · rfl
      · rfl
      · rfl

theorem solve_renumber (s : EquationStore) :
    (s.renumber π).solve = (s.solve.1.mapError (SolveError.renumber π), s.solve.2.renumber π) := by
  rw [solve, solve, show (s.renumber π).table.unresolved = s.table.unresolved
    from Table.unresolved_renumber π s.table]
  exact scans_renumber π _ { s with
    stats := { s.stats with invocations := s.stats.invocations + 1, lastPasses := 0 } }

end EquationStore

/-! ## Types -/

namespace Ty

mutual
def renumber (π : Equiv.Perm SymbolId) : Ty → Ty
  | absent => absent
  | con name module => con name module
  | app ctor args => app (ctor.renumber π) (renumberAll π args)
  | tuple elems => tuple (renumberAll π elems)
  | fn params blocks result capture =>
    fn (renumberAll π params) (renumberAll π blocks) (result.renumber π)
      (capture.map (Term.renumber π))

def renumberAll (π : Equiv.Perm SymbolId) : List Ty → List Ty
  | [] => []
  | t :: ts => t.renumber π :: renumberAll π ts
end

variable (π : Equiv.Perm SymbolId)

theorem isAbsent_renumber (t : Ty) : (t.renumber π).isAbsent = t.isAbsent := by
  cases t <;> simp only [renumber, isAbsent]

theorem length_renumberAll (ts : List Ty) : (renumberAll π ts).length = ts.length := by
  induction ts with
  | nil => rfl
  | cons t ts ih => rw [renumberAll, List.length_cons, List.length_cons, ih]

mutual
theorem slots_renumber : ∀ t : Ty, (t.renumber π).slots = t.slots.map (List.map (Term.renumber π))
  | absent => rfl
  | con _ _ => rfl
  | app ctor args => by
    rw [renumber, slots, slots, slots_renumber ctor, slotsAll_renumber args]
    refine map_bind_map fun first => map_bind_map fun rest => ?_
    exact congrArg Except.ok List.map_append.symm
  | tuple elems => by
    rw [renumber, slots, slots]
    exact slotsAll_renumber elems
  | fn params blocks result capture => by
    rw [renumber, slots, slots, isAbsent_renumber, slots_renumber result]
    have hcapture : (capture.map (Term.renumber π)).toList =
        capture.toList.map (Term.renumber π) := by
      cases capture <;> rfl
    rw [hcapture]
    cases result.isAbsent with
    | true => exact congrArg Except.ok (by rw [List.append_nil, List.append_nil])
    | false =>
      refine map_bind_map fun inner => ?_
      exact congrArg Except.ok List.map_append.symm

theorem slotsAll_renumber :
    ∀ ts : List Ty, slotsAll (renumberAll π ts) = (slotsAll ts).map (List.map (Term.renumber π))
  | [] => rfl
  | t :: ts => by
    rw [renumberAll, slotsAll, slotsAll, slots_renumber t, slotsAll_renumber ts]
    refine map_bind_map fun first => map_bind_map fun rest => ?_
    exact congrArg Except.ok List.map_append.symm
end

theorem unionKnown_renumber (table : Table) (terms : List Term) :
    unionKnown (table.renumber π) (terms.map (Term.renumber π)) =
      (unionKnown table terms).map (RegionSet.renumber π) := by
  suffices hfold : ∀ acc : RegionSet,
      (terms.map (Term.renumber π)).foldlM (addKnown (table.renumber π)) (acc.renumber π) =
      (terms.foldlM (addKnown table) acc).map (RegionSet.renumber π) from hfold ∅
  induction terms with
  | nil => exact fun acc => rfl
  | cons term terms ih =>
    intro acc
    rw [List.map_cons, List.foldlM_cons, List.foldlM_cons]
    have hadd : addKnown (table.renumber π) (acc.renumber π) (term.renumber π) =
        (addKnown table acc term).map (RegionSet.renumber π) := by
      unfold addKnown
      rw [Table.concrete_renumber]
      refine map_bind_map fun known => ?_
      cases known with
      | none => rfl
      | some s => exact congrArg Except.ok (RegionSet.renumber_union π acc s).symm
    rw [hadd]
    exact map_bind_map ih

theorem freeRegions_renumber (table : Table) (t : Ty) :
    (t.renumber π).freeRegions (table.renumber π) =
      (t.freeRegions table).map (RegionSet.renumber π) := by
  rw [freeRegions, freeRegions, isAbsent_renumber]
  cases t.isAbsent with
  | true => rfl
  | false =>
    rw [slots_renumber]
    exact map_bind_map fun terms => unionKnown_renumber π table terms

theorem slotPair_renumber (a b : Option Term) :
    slotPair (a.map (Term.renumber π)) (b.map (Term.renumber π)) =
      (slotPair a b).map (Equation.renumber π) := by
  cases a <;> cases b <;> rfl

mutual
theorem pairs_renumber :
    ∀ t u : Ty, (t.renumber π).pairs (u.renumber π) = (t.pairs u).map (Equation.renumber π)
  | app ctor args, app ctor' args' => by
    simp only [renumber, pairs, length_renumberAll]
    split
    · rw [pairs_renumber ctor ctor', pairsAll_renumber args args', List.map_append]
    · rfl
  | tuple elems, tuple elems' => by
    simp only [renumber, pairs, length_renumberAll]
    split
    · exact pairsAll_renumber elems elems'
    · rfl
  | fn _ _ result capture, fn _ _ result' capture' => by
    simp only [renumber, pairs]
    rw [slotPair_renumber, pairs_renumber result result', List.map_append]
  | absent, _ | con _ _, _ | app _ _, absent | app _ _, con _ _ | app _ _, tuple _ | app _ _,
      fn .. | tuple _, absent
  | tuple _, con _ _ | tuple _, app _ _ | tuple _, fn .. | fn .., absent | fn ..,
      con _ _ | fn .., app _ _
  | fn .., tuple _ => by simp [renumber, pairs]

theorem pairsAll_renumber : ∀ ts us : List Ty,
    pairsAll (renumberAll π ts) (renumberAll π us) = (pairsAll ts us).map (Equation.renumber π)
  | t :: ts, u :: us => by
    rw [renumberAll, renumberAll, pairsAll, pairsAll, pairs_renumber t u, pairsAll_renumber ts us,
      List.map_append]
  | [], _ | _ :: _, [] => by simp [renumberAll, pairsAll]
end

end Ty

/-! ## Substitution -/

namespace RegionSubst

def renumber (π : Equiv.Perm SymbolId) (s : RegionSubst) : RegionSubst :=
  s.map fun e => (π e.1, e.2.renumber π)

variable (π : Equiv.Perm SymbolId) (s : RegionSubst)

theorem image_renumber (r : Region) : (s.renumber π).image (π r) = (s.image r).renumber π := by
  induction s with
  | nil => exact (RegionSet.renumber_singleton π r).symm
  | cons e s ih =>
    obtain ⟨q, rs⟩ := e
    have hcons : ∀ (s : RegionSubst) (q r : Region) (rs : RegionSet),
        RegionSubst.image ((q, rs) :: s) r = if r = q then rs else s.image r := by
      intro s q r rs
      by_cases h : r = q
      · simp [image, h]
      · have hne : (r == q) = false := beq_eq_false_iff_ne.2 h
        simp [image, List.lookup_cons, h, hne]
    rw [renumber, List.map_cons, hcons, hcons]
    by_cases h : r = q
    · rw [if_pos h, if_pos (congrArg π h)]
    · rw [if_neg h, if_neg fun he => h (π.injective he)]
      exact ih

theorem onSet_renumber (rs : RegionSet) :
    (s.renumber π).onSet (rs.renumber π) = (s.onSet rs).renumber π := by
  refine RegionSet.ext_mem fun r => ?_
  rw [RegionSet.mem_renumber, mem_onSet, mem_onSet]
  constructor
  · rintro ⟨q, hq, hr⟩
    refine ⟨π.symm q, RegionSet.mem_renumber.1 hq, ?_⟩
    rw [← π.apply_symm_apply q, image_renumber] at hr
    exact RegionSet.mem_renumber.1 hr
  · rintro ⟨q, hq, hr⟩
    refine ⟨π q, RegionSet.mem_renumber.2 (by rwa [π.symm_apply_apply]), ?_⟩
    rw [image_renumber]
    exact RegionSet.mem_renumber.2 hr

theorem onSlot_renumber (table : Table) (slot : Option Term) :
    (s.renumber π).onSlot (table.renumber π) (slot.map (Term.renumber π)) =
      (s.onSlot table slot).map (Option.map (Term.renumber π)) := by
  cases slot with
  | none => rfl
  | some term =>
    rw [Option.map_some, onSlot, onSlot, Table.concrete_renumber]
    refine map_bind_map fun known => ?_
    cases known with
    | none => rfl
    | some rs => exact congrArg (fun rs => Except.ok (some (Term.set rs))) (onSet_renumber π s rs)

end RegionSubst

namespace Ty

variable (π : Equiv.Perm SymbolId) (table : Table) (s : RegionSubst)

mutual
theorem substAll_renumber : ∀ t : Ty,
    (t.renumber π).substAll (table.renumber π) (s.renumber π) =
      (t.substAll table s).map (renumber π)
  | absent => rfl
  | con _ _ => rfl
  | app ctor args => by
    rw [renumber, substAll, substAll, substAll_renumber ctor, substEach_renumber args]
    exact map_bind_map fun _ => map_bind_map fun _ => rfl
  | tuple elems => by
    rw [renumber, substAll, substAll, substEach_renumber elems]
    exact map_bind_map fun _ => rfl
  | fn params blocks result capture => by
    rw [renumber, substAll, substAll, substEach_renumber params, substEach_renumber blocks,
      substAll_renumber result, RegionSubst.onSlot_renumber]
    exact map_bind_map fun _ => map_bind_map fun _ => map_bind_map fun _ =>
      map_bind_map fun _ => rfl

theorem substEach_renumber : ∀ ts : List Ty,
    substEach (table.renumber π) (s.renumber π) (renumberAll π ts) =
      (substEach table s ts).map (renumberAll π)
  | [] => rfl
  | t :: ts => by
    rw [renumberAll, substEach, substEach, substAll_renumber t, substEach_renumber ts]
    exact map_bind_map fun _ => map_bind_map fun _ => rfl
end

theorem subst_renumber (t : Ty) :
    (t.renumber π).subst (table.renumber π) (s.renumber π) =
      (t.subst table s).map (renumber π) := by
  cases s with
  | nil => rfl
  | cons e s => exact substAll_renumber π table (e :: s) t

end Ty

end RegionCapture
