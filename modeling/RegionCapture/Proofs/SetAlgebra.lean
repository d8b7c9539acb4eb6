import RegionCapture.Region.Set

/-!
# Sets as slices

The operations on sets act on the slices of their members, and some of them are right for ascending
slices only. No operation leaves that form: the slices that can be built by operations on sets, in
any number and any order, are the ascending ones (`Slice.built_iff`). So each operation does on them
what it does on sets, and comparing place by place compares the members. Main statement
`Slice.built_sets`.
-/

namespace RegionCapture.Slice

/-- A slice that operations on sets can build. -/
inductive Built : List Region → Prop where
  | empty : Built []
  | ofList (rs : List Region) : Built (ofList rs)
  | union {xs ys : List Region} : Built xs → Built ys → Built (union xs ys)
  | add {xs : List Region} (r : Region) : Built xs → Built (add xs r)
  | difference {xs ys : List Region} : Built xs → Built ys → Built (difference xs ys)
  | remove {xs : List Region} (r : Region) : Built xs → Built (remove xs r)
  | intersection {xs ys : List Region} : Built xs → Built ys → Built (intersection xs ys)

theorem Built.ascending {xs : List Region} (h : Built xs) : xs.Pairwise (· < ·) := by
  induction h with
  | empty => exact .nil
  | ofList rs => exact pairwise_ofList rs
  | union _ _ ihx ihy => exact pairwise_union ihx ihy
  | add r _ ih => exact pairwise_add ih r
  | @difference _ ys _ _ ihx _ => exact pairwise_difference ihx ys
  | remove r _ ih => exact pairwise_remove ih r
  | @intersection _ ys _ _ ihx _ => exact pairwise_intersection ihx ys

/-- An ascending list is the slice of its own members. -/
theorem ofList_of_ascending {xs : List Region} (h : xs.Pairwise (· < ·)) : ofList xs = xs :=
  eq_of_pairwise_of_mem_iff (pairwise_ofList xs) h fun _ => mem_ofList

theorem built_iff {xs : List Region} : Built xs ↔ xs.Pairwise (· < ·) :=
  ⟨Built.ascending, fun h => ofList_of_ascending h ▸ Built.ofList xs⟩

/-- The members of the slices tell whether they are equal, as their places do. -/
theorem equal_iff_mem {xs ys : List Region} (hx : xs.Pairwise (· < ·)) (hy : ys.Pairwise (· < ·)) :
    equal xs ys = true ↔ ∀ r, r ∈ xs ↔ r ∈ ys := by
  rw [equal_iff]
  constructor
  · rintro rfl r
    exact Iff.rfl
  · exact eq_of_pairwise_of_mem_iff hx hy

theorem intersects_iff_intersection {xs ys : List Region} (hy : ys.Pairwise (· < ·)) :
    intersects xs ys = true ↔ intersection xs ys ≠ [] := by
  rw [intersects_iff hy]
  constructor
  · rintro ⟨q, hq⟩
    exact List.ne_nil_of_mem ((mem_intersection hy).2 hq)
  · intro h
    obtain ⟨q, hq⟩ := List.exists_mem_of_ne_nil _ h
    exact ⟨q, (mem_intersection hy).1 hq⟩

/-- Whatever operations built two slices: they are ascending, a lookup finds the members, the
operations on them have the members of the operations on sets, and the comparisons compare the
members. -/
theorem built_sets {a b : List Region} (ha : Built a) (hb : Built b) :
    a.Pairwise (· < ·) ∧
    (∀ r, contains a r = true ↔ r ∈ a) ∧
    (∀ rs r, r ∈ ofList rs ↔ r ∈ rs) ∧
    (∀ r, r ∈ union a b ↔ r ∈ a ∨ r ∈ b) ∧
    (∀ r q, q ∈ add a r ↔ q = r ∨ q ∈ a) ∧
    (∀ r, r ∈ difference a b ↔ r ∈ a ∧ r ∉ b) ∧
    (∀ r q, q ∈ remove a r ↔ q ∈ a ∧ q ≠ r) ∧
    (∀ r, r ∈ intersection a b ↔ r ∈ a ∧ r ∈ b) ∧
    (intersects a b = true ↔ intersection a b ≠ []) ∧
    (subsetOf a b = true ↔ ∀ r ∈ a, r ∈ b) ∧
    (equal a b = true ↔ ∀ r, r ∈ a ↔ r ∈ b) := by
  have hxs := built_iff.1 ha
  have hys := built_iff.1 hb
  exact ⟨hxs, fun _ => contains_iff hxs, fun _ _ => mem_ofList, fun _ => mem_union,
    fun _ _ => mem_add,
    fun _ => mem_difference hys, fun _ _ => mem_remove, fun _ => mem_intersection hys,
    intersects_iff_intersection hys, subsetOf_iff hys, equal_iff_mem hxs hys⟩

/-- Three even regions, listed out of order and more than once, with an odd one that comes and
goes. -/
def evens : List Region := remove (union (ofList [6, 2, 4, 2]) (add [] 3)) 3

/-- The even regions among the first six, found another way. -/
def evensAgain : List Region :=
  difference (intersection (ofList [6, 5, 4, 3, 2, 1]) (ofList [2, 3, 4, 6, 8])) (ofList [3])

theorem built_sets_evens :
    Built evens ∧ Built evensAgain ∧ evens.Pairwise (· < ·) ∧ contains evens 4 = true ∧
    contains evens 3 = false ∧ (∀ r, r ∈ union evens evensAgain ↔ r ∈ evens ∨ r ∈ evensAgain) ∧
    intersects evens evensAgain = true ∧ equal evens evensAgain = true ∧
    ∀ r, r ∈ evens ↔ r ∈ evensAgain := by
  have hevens : Built evens := ((Built.ofList _).union (Built.empty.add 3)).remove 3
  have hagain : Built evensAgain :=
    ((Built.ofList _).intersection (Built.ofList _)).difference (Built.ofList [3])
  obtain ⟨hascending, hcontains, -, hunion, -, -, -, -, hintersects, -, hequal⟩ :=
    built_sets hevens hagain
  have hsame : equal evens evensAgain = true := by decide
  refine ⟨hevens, hagain, hascending, (hcontains 4).2 (by decide), ?_, hunion,
    hintersects.2 (by decide), hsame,
    hequal.1 hsame⟩
  exact Bool.eq_false_iff.2 (mt (hcontains 3).1 (by decide))

end RegionCapture.Slice
