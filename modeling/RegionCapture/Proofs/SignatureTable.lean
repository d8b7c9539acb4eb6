import Std.Data.TreeMap.Lemmas
import RegionCapture.Proofs.StoredSignature

/-!
# Tables of signatures

What a database shows if its rows are those of given signatures (`Database.Records`): looking a
symbol up gives its signature (`lookup_eq_ok_iff`), and listing a module gives all of its signatures
in the order of the bytes of their symbols (`exists_list`). Saving signatures with different symbols
overwrites those of the same keys (`Records.record`), and the signatures collected for a unit are
such ones (`Signature.pairwise_collect`).
-/

namespace RegionCapture

namespace Text

/-! ## The order of texts is that of their bytes -/

/-- The bytes that a code is written with. -/
def codeBytes (n : Nat) : List Nat :=
  if n < 0x80 then [n]
  else if n < 0x800 then [0xc0 + n / 64, 0x80 + n % 64]
  else if n < 0x10000 then [0xe0 + n / 64 / 64, 0x80 + n / 64 % 64, 0x80 + n % 64]
  else [0xf0 + n / 64 / 64 / 64, 0x80 + n / 64 / 64 % 64, 0x80 + n / 64 % 64, 0x80 + n % 64]

/-- A byte of a longer code has some bits of the code below a mark. -/
theorem toNat_marked {k m : UInt8} {w : Nat}
    (h : ∀ n < 256, n &&& k.toNat ||| m.toNat = m.toNat + n % w) (x : UInt8) :
    (x &&& k ||| m).toNat = m.toNat + x.toNat % w := by
  rw [UInt8.toNat_or, UInt8.toNat_and, h _ x.toNat_lt]

theorem toNat_lt (c : Char) : c.toNat < 0x110000 := by
  have hvalid : c.toNat < 0xd800 ∨ 0xdfff < c.toNat ∧ c.toNat < 0x110000 := c.valid
  omega

theorem map_toNat_utf8EncodeChar (c : Char) :
    (String.utf8EncodeChar c).map UInt8.toNat = codeBytes c.toNat := by
  have hlimit := toNat_lt c
  have htwo := toNat_marked (k := 31) (m := 192) (w := 32) (by decide +kernel)
  have hthree := toNat_marked (k := 15) (m := 224) (w := 16) (by decide +kernel)
  have hfour := toNat_marked (k := 7) (m := 240) (w := 8) (by decide +kernel)
  have hnext := toNat_marked (k := 63) (m := 128) (w := 64) (by decide +kernel)
  have hlow : c.val.toUInt8.toNat = c.toNat % 256 := UInt32.toNat_toUInt8 _
  have hshift : ∀ k : UInt32, (c.val >>> k).toUInt8.toNat = c.toNat / 2 ^ (k.toNat % 32) % 256 := by
    intro k
    rw [UInt32.toNat_toUInt8, UInt32.toNat_shiftRight, Nat.shiftRight_eq_div_pow]
    rfl
  have h6 := hshift 6
  have h12 := hshift 12
  have h18 := hshift 18
  simp only [UInt32.reduceToNat, Nat.reduceMod, Nat.reducePow] at h6 h12 h18
  simp only [UInt8.reduceToNat] at htwo hthree hfour hnext
  unfold codeBytes
  rcases Char.utf8Size_eq c with hc | hc | hc | hc
  · have hsize : c.toNat ≤ 127 := Char.utf8Size_eq_one_iff.1 hc
    rw [String.utf8EncodeChar_eq_singleton hc, if_pos (by omega), List.map_singleton, hlow,
      Nat.mod_eq_of_lt (by omega)]
  · have hsize : 127 < c.toNat ∧ c.toNat ≤ 2047 := Char.utf8Size_eq_two_iff.1 hc
    rw [String.utf8EncodeChar_eq_cons_cons hc, if_neg (by omega), if_pos (by omega)]
    simp only [List.map_cons, List.map_nil, htwo, hnext, h6, hlow, List.cons.injEq, and_true]
    omega
  · have hsize : 2047 < c.toNat ∧ c.toNat ≤ 65535 := Char.utf8Size_eq_three_iff.1 hc
    rw [String.utf8EncodeChar_eq_cons_cons_cons hc, if_neg (by omega), if_neg (by omega),
      if_pos (by omega)]
    simp only [List.map_cons, List.map_nil, hthree, hnext, h6, h12, hlow, List.cons.injEq, and_true]
    omega
  · have hsize : 65535 < c.toNat := Char.utf8Size_eq_four_iff.1 hc
    rw [String.utf8EncodeChar_eq_cons_cons_cons_cons hc, if_neg (by omega), if_neg (by omega),
      if_neg (by omega)]
    simp only [List.map_cons, List.map_nil, hfour, hnext, h6, h12, h18, hlow,
      List.cons.injEq, and_true]
    omega

/-- Of two codes the bytes of the lower one come first, whatever follows. -/
theorem codeBytes_append_lt {m n : Nat} (h : m < n) (hn : n < 0x110000) (xs ys : List Nat) :
    codeBytes m ++ xs < codeBytes n ++ ys := by
  unfold codeBytes
  split_ifs <;> simp only [List.cons_append, List.cons_lt_cons_iff] <;> omega

theorem codeBytes_ne_nil (n : Nat) : ∃ b bs, codeBytes n = b :: bs := by
  unfold codeBytes
  split_ifs <;> exact ⟨_, _, rfl⟩

theorem flatMap_codeBytes_lt {cs ds : List Char} (h : cs < ds) :
    cs.flatMap (codeBytes ·.toNat) < ds.flatMap (codeBytes ·.toNat) := by
  induction h with
  | @nil c cs =>
    obtain ⟨b, bs, hbytes⟩ := codeBytes_ne_nil c.toNat
    simp only [List.flatMap_nil, List.flatMap_cons, hbytes, List.cons_append]
    exact List.nil_lt_cons b _
  | @rel c cs d ds h => exact codeBytes_append_lt h (toNat_lt d) _ _
  | @cons c cs ds h ih =>
    simp only [List.flatMap_cons]
    exact List.append_left_lt ih

theorem lt_of_map_toNat_lt {xs ys : List UInt8}
    (h : xs.map UInt8.toNat < ys.map UInt8.toNat) : xs < ys := by
  induction xs generalizing ys with
  | nil =>
    cases ys with
    | nil => exact absurd h (List.not_lt_nil _)
    | cons y ys => exact List.nil_lt_cons y ys
  | cons x xs ih =>
    cases ys with
    | nil => exact absurd h (List.not_lt_nil _)
    | cons y ys =>
      simp only [List.map_cons, List.cons_lt_cons_iff] at h ⊢
      exact h.imp UInt8.lt_iff_toNat_lt.2 fun h => ⟨UInt8.toNat_inj.1 h.1, ih h.2⟩

/-- A text that comes before another one does so by its bytes. -/
theorem toUTF8_lt {s t : String} (h : s < t) : s.toUTF8.toList < t.toUTF8.toList := by
  refine lt_of_map_toNat_lt ?_
  simp only [toList_toUTF8, List.map_flatMap, map_toNat_utf8EncodeChar]
  exact flatMap_codeBytes_lt h

end Text

namespace Signature

/-! ## Collected signatures -/

theorem name_not_mem_seen {seen : List String} {es : List (Symbol × RegionSet)}
    {e : Symbol × RegionSet} (h : e ∈ firstOfName seen es) : e.1.name ∉ seen := by
  fun_induction firstOfName seen es with
  | case1 => cases h
  | case2 seen e' es hseen ih => exact ih h
  | case3 seen e' es hseen ih =>
    rcases List.mem_cons.1 h with rfl | h
    · simpa using hseen
    · exact fun hmem => ih h (List.mem_cons_of_mem _ hmem)

theorem pairwise_firstOfName (seen : List String) (es : List (Symbol × RegionSet)) :
    (firstOfName seen es).Pairwise fun e e' => e.1.name ≠ e'.1.name := by
  fun_induction firstOfName seen es with
  | case1 => exact List.Pairwise.nil
  | case2 seen e es hseen ih => exact ih
  | case3 seen e es hseen ih =>
    refine List.pairwise_cons.2 ⟨fun e' he' heq => name_not_mem_seen he' ?_, ih⟩
    rw [← heq]
    exact List.mem_cons_self

/-- No two collected signatures have the same symbol. -/
theorem pairwise_collect (module : String) (symbols : SymbolTable) (a : Annotations)
    (runId : RunId) :
    (collect module symbols a runId).Pairwise fun x y => x.symbol ≠ y.symbol :=
  List.pairwise_map.2 (pairwise_firstOfName [] (nameable symbols a))

theorem of_mem_collect {module : String} {symbols : SymbolTable} {a : Annotations} {runId : RunId}
    {sig : Signature} (h : sig ∈ collect module symbols a runId) :
    sig.module = module ∧ sig.regions.isSome := by
  obtain ⟨e, -, rfl⟩ := List.mem_map.1 h
  exact ⟨rfl, rfl⟩

end Signature

namespace Database

/-! ## Rows -/

theorem row?_put (d : Database) (module symbol : String) (row : Row) (module' symbol' : String) :
    (d.put module symbol row).row? module' symbol' =
      if module = module' ∧ symbol = symbol' then some row else d.row? module' symbol' := by
  by_cases hmodule : module = module'
  · subst hmodule
    by_cases hsymbol : symbol = symbol' <;> simp [put, row?, Std.TreeMap.getElem?_insert, hsymbol]
  · simp [put, row?, Std.TreeMap.getD_insert, hmodule]

/-- The database with the rows of signatures in place of any earlier ones of the same symbols. -/
def record (d : Database) (sigs : List Signature) : Database :=
  sigs.foldl (fun d s => d.put s.module s.symbol (rowOf s)) d

theorem schema_record (d : Database) (sigs : List Signature) :
    (d.record sigs).schema = d.schema := by
  induction sigs generalizing d with
  | nil => rfl
  | cons sig sigs ih => exact ih _

theorem row?_record_of_forall_ne {d : Database} {sigs : List Signature} {module symbol : String}
    (h : ∀ sig ∈ sigs, ¬ (sig.module = module ∧ sig.symbol = symbol)) :
    (d.record sigs).row? module symbol = d.row? module symbol := by
  induction sigs generalizing d with
  | nil => rfl
  | cons sig sigs ih =>
    obtain ⟨hsig, hsigs⟩ := List.forall_mem_cons.1 h
    rw [record, List.foldl_cons, ← record, ih hsigs, row?_put, if_neg hsig]

theorem row?_record_of_mem {d : Database} {sigs : List Signature} {sig : Signature}
    (hsigs : sigs.Pairwise fun x y => x.symbol ≠ y.symbol) (h : sig ∈ sigs) :
    (d.record sigs).row? sig.module sig.symbol = some (rowOf sig) := by
  induction sigs generalizing d with
  | nil => cases h
  | cons sig' sigs ih =>
    obtain ⟨hne, hsigs⟩ := List.pairwise_cons.1 hsigs
    rw [record, List.foldl_cons, ← record]
    rcases List.mem_cons.1 h with rfl | h
    · rw [row?_record_of_forall_ne fun x hx hkey => hne x hx hkey.2.symm, row?_put,
        if_pos ⟨rfl, rfl⟩]
    · exact ih hsigs h

/-! ## Databases of given signatures -/

/-- The rows of the database are those of given signatures, one for a module and a symbol. -/
structure Records (d : Database) (given : String → String → Signature → Prop) : Prop where
  row?_eq_some_iff : ∀ module symbol row, d.row? module symbol = some row ↔
    ∃ sig, given module symbol sig ∧ rowOf sig = row
  keyed : ∀ module symbol sig, given module symbol sig → sig.module = module ∧ sig.symbol = symbol
  isSome_regions : ∀ module symbol sig, given module symbol sig → sig.regions.isSome

namespace Records

variable {d : Database} {given : String → String → Signature → Prop} {module symbol : String}
  {sig : Signature}

theorem of_iff {given' : String → String → Signature → Prop} (h : d.Records given)
    (hiff : ∀ module symbol sig, given module symbol sig ↔ given' module symbol sig) :
    d.Records given' := by
  have heq : given = given' := by
    funext module symbol sig
    exact propext (hiff module symbol sig)
  rwa [heq] at h

theorem read_eq (h : d.Records given) (hsig : given module symbol sig) :
    read module symbol (rowOf sig) = .ok sig := by
  obtain ⟨rfl, rfl⟩ := h.keyed _ _ _ hsig
  exact read_rowOf (h.isSome_regions _ _ _ hsig)

theorem row?_eq (h : d.Records given) (hsig : given module symbol sig) :
    d.row? module symbol = some (rowOf sig) :=
  (h.row?_eq_some_iff _ _ _).2 ⟨sig, hsig, rfl⟩

theorem row?_eq_none (h : d.Records given) (hnone : ∀ sig, ¬ given module symbol sig) :
    d.row? module symbol = none := by
  refine Option.eq_none_iff_forall_ne_some.2 fun row hrow => ?_
  obtain ⟨sig, hsig, -⟩ := (h.row?_eq_some_iff _ _ _).1 hrow
  exact hnone sig hsig

theorem lookup_of_given (h : d.Records given) (hsig : given module symbol sig) :
    d.lookup false module symbol = .ok sig := by
  simp only [lookup, Bool.false_eq_true, if_false, h.row?_eq hsig]
  exact h.read_eq hsig

theorem lookup_of_none (h : d.Records given) (hnone : ∀ sig, ¬ given module symbol sig) :
    d.lookup false module symbol = .error .notFound := by
  simp only [lookup, Bool.false_eq_true, if_false, h.row?_eq_none hnone]

/-- Looking a symbol up gives its signature. -/
theorem lookup_eq_ok_iff (h : d.Records given) :
    d.lookup false module symbol = .ok sig ↔ given module symbol sig := by
  refine ⟨fun hlookup => ?_, h.lookup_of_given⟩
  by_cases hnone : ∀ sig, ¬ given module symbol sig
  · rw [h.lookup_of_none hnone] at hlookup
    cases hlookup
  · obtain ⟨sig', hsig'⟩ := not_forall_not.1 hnone
    rw [h.lookup_of_given hsig'] at hlookup
    cases hlookup
    exact hsig'

theorem lookup_eq_notFound_iff (h : d.Records given) :
    d.lookup false module symbol = .error .notFound ↔ ∀ sig, ¬ given module symbol sig := by
  refine ⟨fun hlookup sig hsig => ?_, h.lookup_of_none⟩
  rw [h.lookup_of_given hsig] at hlookup
  cases hlookup

theorem mapM_read {sigs : List Signature} (h : d.Records given)
    (hsigs : ∀ sig ∈ sigs, given module sig.symbol sig) :
    (sigs.map fun sig => (sig.symbol, rowOf sig)).mapM (fun (symbol, r) => read module symbol r) =
      .ok sigs := by
  induction sigs with
  | nil => rfl
  | cons sig sigs ih =>
    obtain ⟨hsig, hsigs⟩ := List.forall_mem_cons.1 hsigs
    rw [List.map_cons, List.mapM_cons, ih hsigs]
    simp only [h.read_eq hsig]
    rfl

theorem exists_rows (h : d.Records given) (module : String) : ∃ sigs : List Signature,
    (d.rows.getD module {}).toList = sigs.map (fun sig => (sig.symbol, rowOf sig)) ∧
      ∀ sig ∈ sigs, given module sig.symbol sig := by
  have hrows : ∀ e ∈ (d.rows.getD module {}).toList, ∃ sig : Signature,
      e = (sig.symbol, rowOf sig) ∧ given module sig.symbol sig := by
    rintro ⟨symbol, row⟩ hmem
    have hrow : d.row? module symbol = some row :=
      Std.TreeMap.mem_toList_iff_getElem?_eq_some.1 hmem
    obtain ⟨sig, hsig, rfl⟩ := (h.row?_eq_some_iff module symbol row).1 hrow
    obtain ⟨-, rfl⟩ := h.keyed _ _ _ hsig
    exact ⟨sig, rfl, hsig⟩
  generalize (d.rows.getD module {}).toList = es at hrows
  induction es with
  | nil => exact ⟨[], rfl, nofun⟩
  | cons e es ih =>
    obtain ⟨⟨sig, rfl, hsig⟩, hes⟩ := List.forall_mem_cons.1 hrows
    obtain ⟨sigs, rfl, hsigs⟩ := ih hes
    exact ⟨sig :: sigs, rfl, List.forall_mem_cons.2 ⟨hsig, hsigs⟩⟩

/-- Listing a module gives all its signatures, each symbol once and in the order of their bytes. -/
theorem exists_list (h : d.Records given) (module : String) :
    ∃ sigs, d.list false module = .ok sigs ∧
    sigs.Pairwise (fun x y => x.symbol.toUTF8.toList < y.symbol.toUTF8.toList) ∧
      ∀ sig, sig ∈ sigs ↔ given module sig.symbol sig := by
  obtain ⟨sigs, hrows, hsigs⟩ := h.exists_rows module
  refine ⟨sigs, ?_, ?_, fun sig => ⟨hsigs sig, fun hsig => ?_⟩⟩
  · simp only [list, Bool.false_eq_true, if_false, hrows]
    exact h.mapM_read hsigs
  · have hordered := Std.TreeMap.ordered_keys_toList (t := d.rows.getD module {})
    rw [hrows, List.pairwise_map] at hordered
    exact hordered.imp fun hlt => Text.toUTF8_lt (compareOfLessAndEq_eq_lt.1 hlt)
  · have hmem := Std.TreeMap.mem_toList_iff_getElem?_eq_some.2 (h.row?_eq hsig)
    rw [hrows] at hmem
    obtain ⟨sig', hsig', heq⟩ := List.mem_map.1 hmem
    obtain ⟨hsymbol, hrow⟩ := Prod.mk.inj heq
    have hread := h.read_eq (hsigs sig' hsig')
    rw [hsymbol, hrow, h.read_eq hsig] at hread
    cases hread
    exact hsig'

/-- Recording signatures overwrites those of the same keys and keeps all others. -/
theorem record (h : d.Records given) {sigs : List Signature}
    (hsigs : sigs.Pairwise fun x y => x.symbol ≠ y.symbol)
    (hsome : ∀ sig ∈ sigs, sig.regions.isSome) :
    (d.record sigs).Records fun module symbol sig =>
      (sig ∈ sigs ∧ sig.module = module ∧ sig.symbol = symbol) ∨
      (given module symbol sig ∧
        ∀ sig' ∈ sigs, ¬ (sig'.module = module ∧ sig'.symbol = symbol)) where
  row?_eq_some_iff module symbol row := by
    constructor
    · intro hrow
      by_cases hkey : ∃ sig ∈ sigs, sig.module = module ∧ sig.symbol = symbol
      · obtain ⟨sig, hsig, rfl, rfl⟩ := hkey
        rw [row?_record_of_mem hsigs hsig] at hrow
        exact ⟨sig, .inl ⟨hsig, rfl, rfl⟩, Option.some.inj hrow⟩
      · have hne : ∀ sig ∈ sigs, ¬ (sig.module = module ∧ sig.symbol = symbol) :=
          fun sig hsig heq =>
            hkey ⟨sig, hsig, heq⟩
        rw [row?_record_of_forall_ne hne] at hrow
        obtain ⟨sig, hsig, hrow⟩ := (h.row?_eq_some_iff _ _ _).1 hrow
        exact ⟨sig, .inr ⟨hsig, hne⟩, hrow⟩
    · rintro ⟨sig, ⟨hsig, rfl, rfl⟩ | ⟨hsig, hne⟩, rfl⟩
      · exact row?_record_of_mem hsigs hsig
      · rw [row?_record_of_forall_ne hne]
        exact h.row?_eq hsig
  keyed module symbol sig := by
    rintro (⟨-, hkey⟩ | ⟨hsig, -⟩)
    · exact hkey
    · exact h.keyed _ _ _ hsig
  isSome_regions module symbol sig := by
    rintro (⟨hsig, -⟩ | ⟨hsig, -⟩)
    · exact hsome sig hsig
    · exact h.isSome_regions _ _ _ hsig

end Records

end Database

end RegionCapture
