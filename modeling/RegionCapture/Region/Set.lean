import RegionCapture.Region.Slice

/-!
# Region sets

A region set lists its members in strictly ascending order, so two sets with the same members are
the same value (`RegionSet.ext_mem`). The operations are those on slices, with what they keep of the
order.
-/

namespace RegionCapture

/-- A finite set of regions, as the ascending list of its members. -/
structure RegionSet where
  elems : List Region
  ascending : elems.Pairwise (· < ·)

namespace RegionSet

/-! ## Operations -/

def empty : RegionSet := ⟨[], .nil⟩

instance : EmptyCollection RegionSet := ⟨empty⟩

instance : Inhabited RegionSet := ⟨empty⟩

/-- The set of the regions listed, in any order and any number of times. -/
def ofList (rs : List Region) : RegionSet := ⟨Slice.ofList rs, Slice.pairwise_ofList rs⟩

def singleton (r : Region) : RegionSet := ofList [r]

def union (s o : RegionSet) : RegionSet :=
  ⟨Slice.union s.elems o.elems, Slice.pairwise_union s.ascending o.ascending⟩

def add (s : RegionSet) (r : Region) : RegionSet :=
  ⟨Slice.add s.elems r, Slice.pairwise_add s.ascending r⟩

def difference (s o : RegionSet) : RegionSet :=
  ⟨Slice.difference s.elems o.elems, Slice.pairwise_difference s.ascending o.elems⟩

def remove (s : RegionSet) (r : Region) : RegionSet :=
  ⟨Slice.remove s.elems r, Slice.pairwise_remove s.ascending r⟩

def intersection (s o : RegionSet) : RegionSet :=
  ⟨Slice.intersection s.elems o.elems, Slice.pairwise_intersection s.ascending o.elems⟩

instance : Union RegionSet := ⟨union⟩
instance : SDiff RegionSet := ⟨difference⟩
instance : Inter RegionSet := ⟨intersection⟩

def contains (s : RegionSet) (r : Region) : Bool := Slice.contains s.elems r

/-- Whether every member of the first set is a member of the second. -/
def subsetOf (s o : RegionSet) : Bool := Slice.subsetOf s.elems o.elems

def intersects (s o : RegionSet) : Bool := Slice.intersects s.elems o.elems

def equal (s o : RegionSet) : Bool := Slice.equal s.elems o.elems

def isEmpty (s : RegionSet) : Bool := s.elems.isEmpty

def size (s : RegionSet) : Nat := s.elems.length

/-- The members between braces, each written by `name`. -/
def format (name : Region → String) (s : RegionSet) : String :=
  "\x7b" ++ String.intercalate ", " (s.elems.map name) ++ "\x7d"

def text (s : RegionSet) : String := s.format Region.text

/-! ## Membership -/

instance : Membership Region RegionSet := ⟨fun s r => r ∈ s.elems⟩

theorem mem_def {r : Region} {s : RegionSet} : r ∈ s ↔ r ∈ s.elems := Iff.rfl

@[simp] theorem contains_iff {r : Region} {s : RegionSet} : s.contains r = true ↔ r ∈ s :=
  Slice.contains_iff s.ascending

instance (r : Region) (s : RegionSet) : Decidable (r ∈ s) :=
  decidable_of_iff (s.contains r = true) contains_iff

@[simp] theorem equal_iff {s o : RegionSet} : s.equal o = true ↔ s = o := by
  cases s
  cases o
  rw [equal, Slice.equal_iff, RegionSet.mk.injEq]

instance : DecidableEq RegionSet := fun s o => decidable_of_iff (s.equal o = true) equal_iff

/-- Sets with the same members are equal. -/
theorem ext_mem {s o : RegionSet} (h : ∀ r, r ∈ s ↔ r ∈ o) : s = o := by
  obtain ⟨xs, hx⟩ := s
  obtain ⟨ys, hy⟩ := o
  congr
  exact Slice.eq_of_pairwise_of_mem_iff hx hy h

@[simp] theorem not_mem_empty (r : Region) : r ∉ (∅ : RegionSet) := List.not_mem_nil

@[simp] theorem mem_ofList {q : Region} {rs : List Region} : q ∈ ofList rs ↔ q ∈ rs :=
  Slice.mem_ofList

@[simp] theorem mem_singleton {q r : Region} : q ∈ singleton r ↔ q = r :=
  mem_ofList.trans List.mem_singleton

@[simp] theorem mem_union {q : Region} {s o : RegionSet} : q ∈ s ∪ o ↔ q ∈ s ∨ q ∈ o :=
  Slice.mem_union

@[simp] theorem mem_add {q r : Region} {s : RegionSet} : q ∈ s.add r ↔ q = r ∨ q ∈ s :=
  Slice.mem_add

@[simp] theorem mem_sdiff {q : Region} {s o : RegionSet} : q ∈ s \ o ↔ q ∈ s ∧ q ∉ o :=
  Slice.mem_difference o.ascending

@[simp] theorem mem_remove {q r : Region} {s : RegionSet} : q ∈ s.remove r ↔ q ∈ s ∧ q ≠ r :=
  Slice.mem_remove

@[simp] theorem mem_inter {q : Region} {s o : RegionSet} : q ∈ s ∩ o ↔ q ∈ s ∧ q ∈ o :=
  Slice.mem_intersection o.ascending

@[simp] theorem subsetOf_iff {s o : RegionSet} : s.subsetOf o = true ↔ ∀ r ∈ s, r ∈ o :=
  Slice.subsetOf_iff o.ascending

@[simp] theorem intersects_iff {s o : RegionSet} : s.intersects o = true ↔ ∃ r ∈ s, r ∈ o :=
  Slice.intersects_iff o.ascending

theorem eq_empty_iff {s : RegionSet} : s = ∅ ↔ ∀ r, r ∉ s :=
  ⟨fun h => h ▸ not_mem_empty, fun h => ext_mem fun r => iff_of_false (h r) (not_mem_empty r)⟩

@[simp] theorem isEmpty_iff {s : RegionSet} : s.isEmpty = true ↔ ∀ r, r ∉ s := by
  simp [isEmpty, mem_def, List.eq_nil_iff_forall_not_mem]

end RegionSet

end RegionCapture
