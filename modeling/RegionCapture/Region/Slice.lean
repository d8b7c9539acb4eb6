import RegionCapture.Symbol

/-!
# Slices of regions

A region is the identity of one binder: a function, an anonymous function, a handled capability or a
block parameter. The members of a set of regions are kept in a slice: a list in strictly ascending
order. Looking a region up by halving (`contains`) and merging two slices (`union`) rely on that
order, and two slices are compared place by place (`equal`). Each operation has its members stated
here, and gives an ascending list if its operands are ascending.
-/

namespace RegionCapture

/-- A region, numbered like the symbol that owns it. -/
abbrev Region := Nat

namespace Region

def ofSymbol (s : SymbolId) : Region := s

def owner (r : Region) : SymbolId := r

def text (r : Region) : String := "r" ++ toString (show Nat from r)

end Region

namespace Slice

/-! ## Operations -/

/-- The first place from `lo` on and below `hi` where `p` holds, by halving; `hi` if there is none.
Where `p` holds it has to hold at all later places too. -/
@[semireducible]
def search (p : Nat → Bool) (lo hi : Nat) : Nat :=
  if lo < hi then
    let mid := (lo + hi) / 2
    if p mid then search p lo mid else search p (mid + 1) hi
  else lo
termination_by hi - lo

def contains (xs : List Region) (r : Region) : Bool :=
  xs[search (fun i => xs[i]?.any (r ≤ ·)) 0 xs.length]? == some r

/-- Puts a region before the first one that is not smaller. -/
def place (r : Region) : List Region → List Region
  | [] => [r]
  | x :: xs => if r ≤ x then r :: x :: xs else x :: place r xs

def sort (rs : List Region) : List Region := rs.foldr place []

/-- The regions that differ from the one kept before them, which is `last` at first. -/
def distinctAfter (last : Region) : List Region → List Region
  | [] => []
  | x :: xs => if x = last then distinctAfter last xs else x :: distinctAfter x xs

/-- The regions listed, in any order and any number of times. -/
def ofList (rs : List Region) : List Region :=
  match sort rs with
  | [] => []
  | x :: xs => x :: distinctAfter x xs

/-- The regions of either slice. One that is listed in both is taken once. -/
@[semireducible]
def union : List Region → List Region → List Region
  | [], ys => ys
  | x :: xs, [] => x :: xs
  | x :: xs, y :: ys =>
    if x < y then x :: union xs (y :: ys)
    else if y < x then y :: union (x :: xs) ys
    else x :: union xs ys
termination_by xs ys => xs.length + ys.length

def add (xs : List Region) (r : Region) : List Region := union xs (ofList [r])

def difference (xs ys : List Region) : List Region :=
  if xs.isEmpty || ys.isEmpty then xs else xs.filter fun r => !contains ys r

def remove (xs : List Region) (r : Region) : List Region := difference xs (ofList [r])

def intersection (xs ys : List Region) : List Region := xs.filter (contains ys)

def intersects (xs ys : List Region) : Bool := xs.any (contains ys)

def subsetOf (xs ys : List Region) : Bool := xs.all (contains ys)

/-- Whether the slices are as long as each other and agree at every place. -/
def equal (xs ys : List Region) : Bool :=
  xs.length == ys.length && (xs.zip ys).all fun p => p.1 == p.2

/-! ## Looking a region up -/

/-- The place that is found separates where `p` fails from where it holds. -/
theorem search_spec {p : Nat → Bool} {lo hi : Nat} (hle : lo ≤ hi)
    (hmono : ∀ i j, i ≤ j → j < hi → p i = true → p j = true) :
    lo ≤ search p lo hi ∧ search p lo hi ≤ hi ∧ (∀ i, lo ≤ i → i < search p lo hi → p i = false) ∧
      ∀ i, search p lo hi ≤ i → i < hi → p i = true := by
  fun_induction search p lo hi with
  | case1 lo hi hlt mid hmid ih =>
    obtain ⟨hlo, hhi, hbelow, habove⟩ := ih (by omega) fun i j hij hj => hmono i j hij (by omega)
    refine ⟨hlo, by omega, hbelow, fun i hi' hlt' => ?_⟩
    by_cases him : i < mid
    · exact habove i hi' him
    · exact hmono mid i (by omega) hlt' hmid
  | case2 lo hi hlt mid hmid ih =>
    obtain ⟨hlo, hhi, hbelow, habove⟩ := ih (by omega) hmono
    refine ⟨by omega, hhi, fun i hi' hlt' => ?_, habove⟩
    by_cases him : mid < i
    · exact hbelow i him hlt'
    · exact Bool.eq_false_iff.2 fun hi => hmid (hmono i mid (by omega) (by omega) hi)
  | case3 lo hi hlt =>
    exact ⟨Nat.le_refl lo, hle, fun i h1 h2 => absurd h2 (by omega),
      fun i h1 h2 => absurd h2 (by omega)⟩

theorem getElem_le_getElem {xs : List Region} (h : xs.Pairwise (· < ·)) {i j : Nat} (hij : i ≤ j)
    (hj : j < xs.length) :
    xs[i] ≤ xs[j] := by
  rcases Nat.lt_or_eq_of_le hij with hlt | rfl
  · exact Nat.le_of_lt (List.pairwise_iff_getElem.1 h i j (by omega) hj hlt)
  · exact Nat.le_refl _

theorem contains_iff {xs : List Region} (h : xs.Pairwise (· < ·)) {r : Region} :
    contains xs r = true ↔ r ∈ xs := by
  have hp : ∀ i (hi : i < xs.length), (xs[i]?.any (r ≤ ·)) = decide (r ≤ xs[i]) := by
    intro i hi
    simp [hi]
  obtain ⟨-, -, hbelow, habove⟩ :=
    search_spec (p := fun i => xs[i]?.any (r ≤ ·)) (Nat.zero_le xs.length) <| by
      intro i j hij hj hi
      simp only [hp i (by omega), hp j hj, decide_eq_true_eq] at hi ⊢
      exact Nat.le_trans hi (getElem_le_getElem h hij hj)
  simp only [contains, beq_iff_eq]
  constructor
  · exact List.mem_of_getElem?
  · intro hr
    -- what is found is not after the place of `r`, so it is at most `r`, and it is at least `r` as
    -- `p` holds there
    obtain ⟨k, hk, rfl⟩ := List.getElem_of_mem hr
    generalize search _ 0 xs.length = found at hbelow habove ⊢
    have hfound : found ≤ k := by
      refine Nat.le_of_not_lt fun hlt => ?_
      have := hbelow k (Nat.zero_le k) hlt
      simp [hp k hk] at this
    have hat := habove found (Nat.le_refl found) (by omega)
    simp only [hp found (by omega), decide_eq_true_eq] at hat
    rw [List.getElem?_eq_getElem (by omega), Nat.le_antisymm (getElem_le_getElem h hfound hk) hat]

/-! ## Slices of any list -/

theorem mem_place {q r : Region} {xs : List Region} : q ∈ place r xs ↔ q = r ∨ q ∈ xs := by
  induction xs with
  | nil => simp [place]
  | cons x xs ih =>
    simp only [place]
    split
    · simp
    · simp only [List.mem_cons, ih, or_left_comm]

theorem pairwise_place {r : Region} {xs : List Region} (h : xs.Pairwise (· ≤ ·)) :
    (place r xs).Pairwise (· ≤ ·) := by
  induction xs with
  | nil => simp [place]
  | cons x xs ih =>
    obtain ⟨hx, hxs⟩ := List.pairwise_cons.1 h
    simp only [place]
    split
    · next hr =>
      refine List.pairwise_cons.2 ⟨fun y hy => ?_, h⟩
      rcases List.mem_cons.1 hy with rfl | hy
      · exact hr
      · exact Nat.le_trans hr (hx y hy)
    · next hr =>
      refine List.pairwise_cons.2 ⟨fun y hy => ?_, ih hxs⟩
      rcases mem_place.1 hy with rfl | hy
      · exact Nat.le_of_not_le hr
      · exact hx y hy

theorem mem_sort {q : Region} {rs : List Region} : q ∈ sort rs ↔ q ∈ rs := by
  induction rs with
  | nil => simp [sort]
  | cons r rs ih =>
    rw [List.mem_cons, ← ih]
    exact mem_place

theorem pairwise_sort (rs : List Region) : (sort rs).Pairwise (· ≤ ·) := by
  induction rs with
  | nil => exact .nil
  | cons r rs ih => exact pairwise_place ih

/-- In an ordered list, the regions kept after `last` are the larger ones. -/
theorem mem_distinctAfter {q last : Region} {xs : List Region} (h : (last :: xs).Pairwise (· ≤ ·)) :
    q ∈ distinctAfter last xs ↔ last < q ∧ q ∈ xs := by
  induction xs generalizing last with
  | nil => simp [distinctAfter]
  | cons x xs ih =>
    obtain ⟨hlast, hxs⟩ := List.pairwise_cons.1 h
    have hx := hlast x List.mem_cons_self
    simp only [distinctAfter]
    split
    · next heq =>
      subst heq
      rw [ih hxs, List.mem_cons]
      refine and_congr_right fun hq => ?_
      exact ⟨.inr, fun hmem => hmem.resolve_left (Nat.ne_of_gt hq)⟩
    · next hne =>
      have hlt : last < x := Nat.lt_of_le_of_ne hx (Ne.symm hne)
      rw [List.mem_cons, List.mem_cons, ih hxs]
      constructor
      · rintro (rfl | ⟨hq, hmem⟩)
        · exact ⟨hlt, .inl rfl⟩
        · exact ⟨Nat.lt_trans hlt hq, .inr hmem⟩
      · rintro ⟨-, rfl | hmem⟩
        · exact .inl rfl
        · by_cases hq : q = x
          · exact .inl hq
          · exact .inr ⟨Nat.lt_of_le_of_ne ((List.pairwise_cons.1 hxs).1 q hmem) (Ne.symm hq), hmem⟩

theorem pairwise_distinctAfter {last : Region} {xs : List Region}
    (h : (last :: xs).Pairwise (· ≤ ·)) :
    (last :: distinctAfter last xs).Pairwise (· < ·) := by
  refine List.pairwise_cons.2 ⟨fun q hq => ((mem_distinctAfter h).1 hq).1, ?_⟩
  induction xs generalizing last with
  | nil => exact .nil
  | cons x xs ih =>
    obtain ⟨-, hxs⟩ := List.pairwise_cons.1 h
    simp only [distinctAfter]
    split
    · next heq =>
      subst heq
      exact ih hxs
    · exact List.pairwise_cons.2 ⟨fun q hq => ((mem_distinctAfter hxs).1 hq).1, ih hxs⟩

theorem mem_ofList {q : Region} {rs : List Region} : q ∈ ofList rs ↔ q ∈ rs := by
  have hsort := pairwise_sort rs
  refine Iff.trans ?_ mem_sort
  rw [ofList]
  cases heq : sort rs with
  | nil => exact Iff.rfl
  | cons x xs =>
    rw [heq] at hsort
    rw [List.mem_cons, List.mem_cons, mem_distinctAfter hsort]
    constructor
    · exact Or.imp_right And.right
    · rintro (rfl | hmem)
      · exact .inl rfl
      · rcases Nat.lt_or_eq_of_le ((List.pairwise_cons.1 hsort).1 q hmem) with hlt | heq
        · exact .inr ⟨hlt, hmem⟩
        · exact .inl heq.symm

theorem pairwise_ofList (rs : List Region) : (ofList rs).Pairwise (· < ·) := by
  have hsort := pairwise_sort rs
  rw [ofList]
  cases heq : sort rs with
  | nil => exact .nil
  | cons x xs =>
    rw [heq] at hsort
    exact pairwise_distinctAfter hsort

/-! ## Merged slices -/

/-- The members need no order; it is for the result to be in order again. -/
theorem mem_union {q : Region} {xs ys : List Region} : q ∈ union xs ys ↔ q ∈ xs ∨ q ∈ ys := by
  fun_induction union xs ys with
  | case1 ys => simp
  | case2 x xs => simp
  | case3 x xs y ys hlt ih => simp only [List.mem_cons, ih, or_assoc]
  | case4 x xs y ys hlt hgt ih =>
    simp only [List.mem_cons, ih]
    exact or_left_comm
  | case5 x xs y ys hlt hgt ih =>
    have hxy : x = y := Nat.le_antisymm (Nat.le_of_not_lt hgt) (Nat.le_of_not_lt hlt)
    subst hxy
    simp only [List.mem_cons, ih]
    exact or_or_distrib_left

theorem pairwise_union {xs ys : List Region} (hxs : xs.Pairwise (· < ·))
    (hys : ys.Pairwise (· < ·)) :
    (union xs ys).Pairwise (· < ·) := by
  fun_induction union xs ys with
  | case1 ys => exact hys
  | case2 x xs => exact hxs
  | case3 x xs y ys hlt ih =>
    obtain ⟨hx, hxs⟩ := List.pairwise_cons.1 hxs
    have hy := (List.pairwise_cons.1 hys).1
    refine List.pairwise_cons.2 ⟨fun q hq => ?_, ih hxs hys⟩
    rcases mem_union.1 hq with hq | hq
    · exact hx q hq
    · rcases List.mem_cons.1 hq with rfl | hq
      · exact hlt
      · exact Nat.lt_trans hlt (hy q hq)
  | case4 x xs y ys hlt hgt ih =>
    obtain ⟨hy, hys⟩ := List.pairwise_cons.1 hys
    have hx := (List.pairwise_cons.1 hxs).1
    refine List.pairwise_cons.2 ⟨fun q hq => ?_, ih hxs hys⟩
    rcases mem_union.1 hq with hq | hq
    · rcases List.mem_cons.1 hq with rfl | hq
      · exact hgt
      · exact Nat.lt_trans hgt (hx q hq)
    · exact hy q hq
  | case5 x xs y ys hlt hgt ih =>
    have hxy : x = y := Nat.le_antisymm (Nat.le_of_not_lt hgt) (Nat.le_of_not_lt hlt)
    subst hxy
    obtain ⟨hx, hxs⟩ := List.pairwise_cons.1 hxs
    obtain ⟨hy, hys⟩ := List.pairwise_cons.1 hys
    refine List.pairwise_cons.2 ⟨fun q hq => ?_, ih hxs hys⟩
    exact (mem_union.1 hq).elim (hx q) (hy q)

theorem mem_add {q r : Region} {xs : List Region} : q ∈ add xs r ↔ q = r ∨ q ∈ xs := by
  rw [add, mem_union, mem_ofList, List.mem_singleton, or_comm]

theorem pairwise_add {xs : List Region} (h : xs.Pairwise (· < ·)) (r : Region) :
    (add xs r).Pairwise (· < ·) :=
  pairwise_union h (pairwise_ofList [r])

/-! ## Slices with regions left out -/

theorem mem_difference {xs ys : List Region} (hys : ys.Pairwise (· < ·)) {q : Region} :
    q ∈ difference xs ys ↔ q ∈ xs ∧ q ∉ ys := by
  simp only [difference]
  split
  · next hempty =>
    rcases Bool.or_eq_true_iff.1 hempty with h | h
    · simp [List.isEmpty_iff.1 h]
    · simp [List.isEmpty_iff.1 h]
  · rw [List.mem_filter, Bool.not_eq_true', Bool.eq_false_iff, ne_eq, contains_iff hys]

theorem pairwise_difference {xs : List Region} (h : xs.Pairwise (· < ·)) (ys : List Region) :
    (difference xs ys).Pairwise (· < ·) := by
  simp only [difference]
  split
  · exact h
  · exact h.sublist List.filter_sublist

theorem mem_remove {q r : Region} {xs : List Region} : q ∈ remove xs r ↔ q ∈ xs ∧ q ≠ r := by
  rw [remove, mem_difference (pairwise_ofList [r]), mem_ofList, List.mem_singleton]

theorem pairwise_remove {xs : List Region} (h : xs.Pairwise (· < ·)) (r : Region) :
    (remove xs r).Pairwise (· < ·) := pairwise_difference h (ofList [r])

theorem mem_intersection {xs ys : List Region} (hys : ys.Pairwise (· < ·)) {q : Region} :
    q ∈ intersection xs ys ↔ q ∈ xs ∧ q ∈ ys := by
  rw [intersection, List.mem_filter, contains_iff hys]

theorem pairwise_intersection {xs : List Region} (h : xs.Pairwise (· < ·)) (ys : List Region) :
    (intersection xs ys).Pairwise (· < ·) := h.sublist List.filter_sublist

/-! ## Comparing slices -/

theorem intersects_iff {xs ys : List Region} (hys : ys.Pairwise (· < ·)) :
    intersects xs ys = true ↔ ∃ q ∈ xs, q ∈ ys := by
  simp only [intersects, List.any_eq_true, contains_iff hys]

theorem subsetOf_iff {xs ys : List Region} (hys : ys.Pairwise (· < ·)) :
    subsetOf xs ys = true ↔ ∀ q ∈ xs, q ∈ ys := by
  simp only [subsetOf, List.all_eq_true, contains_iff hys]

theorem equal_iff {xs ys : List Region} : equal xs ys = true ↔ xs = ys := by
  simp only [equal, Bool.and_eq_true, beq_iff_eq]
  induction xs generalizing ys with
  | nil => simp [eq_comm, List.length_eq_zero_iff]
  | cons x xs ih =>
    cases ys with
    | nil => simp
    | cons y ys =>
      rw [List.cons_eq_cons, ← ih]
      simp only [List.length_cons, Nat.add_right_cancel_iff, List.zip_cons_cons, List.all_cons,
        Bool.and_eq_true, beq_iff_eq]
      exact and_left_comm

/-- Ascending lists with the same members are equal. -/
theorem eq_of_pairwise_of_mem_iff : ∀ {xs ys : List Region}, xs.Pairwise (· < ·) →
    ys.Pairwise (· < ·) → (∀ r, r ∈ xs ↔ r ∈ ys) → xs = ys
  | [], [], _, _, _ => rfl
  | [], y :: _, _, _, h => absurd ((h y).2 (by simp)) (by simp)
  | x :: _, [], _, _, h => absurd ((h x).1 (by simp)) (by simp)
  | x :: xs, y :: ys, hx, hy, h => by
    obtain ⟨hx1, hx2⟩ := List.pairwise_cons.1 hx
    obtain ⟨hy1, hy2⟩ := List.pairwise_cons.1 hy
    have hxy : x = y := by
      rcases List.mem_cons.1 ((h x).1 (by simp)) with e | e
      · exact e
      · rcases List.mem_cons.1 ((h y).2 (by simp)) with e' | e'
        · exact e'.symm
        · exact absurd (Nat.lt_trans (hy1 x e) (hx1 y e')) (Nat.lt_irrefl _)
    subst hxy
    have ht : xs = ys := eq_of_pairwise_of_mem_iff hx2 hy2 fun r => by
      have := h r
      simp only [List.mem_cons] at this
      constructor
      · intro hr
        rcases this.1 (.inr hr) with rfl | hr'
        · exact absurd (hx1 _ hr) (Nat.lt_irrefl _)
        · exact hr'
      · intro hr
        rcases this.2 (.inr hr) with rfl | hr'
        · exact absurd (hy1 _ hr) (Nat.lt_irrefl _)
        · exact hr'
    rw [ht]

end Slice

end RegionCapture
