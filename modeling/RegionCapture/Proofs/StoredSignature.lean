import Mathlib.Data.List.Basic
import Mathlib.Tactic.Ring
import RegionCapture.Export.Database

/-!
# Signatures read back

A signature is stored as a row of texts. Hexadecimal digits (`Text.numeral?_hexDigits`), lists of
texts (`Text.StringList.decode_encode`) and run identities (`RunId.parse?_text`) read back as what
was written, so a row reads back as its signature. Main statement `Database.read_rowOf`.
-/

namespace RegionCapture

namespace Text

/-! ## Digits -/

theorem hexDigit_mod (n : Nat) : hexDigit (n % 16) = hexDigit n := by
  simp only [hexDigit, Nat.mod_mod]

theorem digit?_hexDigit (n : Nat) : digit? 16 (hexDigit n) = some (n % 16) := by
  have hsmall : ∀ d < 16, digit? 16 (hexDigit d) = some d := by decide
  rw [← hexDigit_mod, hsmall _ (Nat.mod_lt n (by decide))]

theorem foldlM_hexDigits (width n acc : Nat) :
    (hexDigits width n).foldlM (fun acc c => (digit? 16 c).map fun d => acc * 16 + d) acc =
      some (acc * 16 ^ width + n % 16 ^ width) := by
  induction width generalizing n with
  | zero => simp [hexDigits, Nat.mod_one]
  | succ width ih =>
    have hlast : n % 16 ^ (width + 1) = n % 16 + 16 * (n / 16 % 16 ^ width) := by
      rw [Nat.pow_succ', Nat.mod_mul]
    rw [hexDigits, List.foldlM_append, ih, hlast]
    simp only [Option.bind_eq_bind, Option.bind_some, List.foldlM_cons, List.foldlM_nil,
      digit?_hexDigit, Option.map_some]
    congr 1
    ring

theorem numeral?_hexDigits (width n : Nat) :
    numeral? 16 (hexDigits (width + 1) n) = some (n % 16 ^ (width + 1)) := by
  have hsome : (hexDigits (width + 1) n).isEmpty = false := by simp [hexDigits]
  simp only [numeral?, hsome, foldlM_hexDigits]
  simp

theorem lt_of_mem_hexDigits {width n : Nat} {c : Char} (h : c ∈ hexDigits width n) :
    c.toNat < 128 := by
  have hsmall : ∀ d < 16, (hexDigit d).toNat < 128 := by decide
  induction width generalizing n with
  | zero => cases h
  | succ width ih =>
    rcases List.mem_append.1 h with h | h
    · exact ih h
    · rw [List.mem_singleton.1 h, ← hexDigit_mod]
      exact hsmall _ (Nat.mod_lt n (by decide))

/-! ## Bytes -/

theorem toList_loop (bs : ByteArray) (i : Nat) (r : List UInt8) :
    ByteArray.toList.loop bs i r = r.reverse ++ bs.data.toList.drop i := by
  fun_induction ByteArray.toList.loop bs i r with
  | case1 i r hi ih =>
    have hi' : i < bs.data.toList.length := by simpa using hi
    rw [ih, List.drop_eq_getElem_cons hi']
    simp [ByteArray.get!, getElem!_pos bs.data i hi]
  | case2 i r hi =>
    have hi' : bs.data.toList.length ≤ i := by simpa using hi
    rw [List.drop_eq_nil_of_le hi', List.append_nil]

/-- The bytes of a text are those of its characters, one after the other. -/
theorem toList_toUTF8 (s : String) : s.toUTF8.toList = s.toList.flatMap String.utf8EncodeChar := by
  conv_lhs => rw [← String.ofList_toList (s := s)]
  rw [String.toUTF8_eq_toByteArray, String.toByteArray_ofList, ByteArray.toList, toList_loop,
    List.utf8Encode, List.data_toByteArray]
  simp

end Text

namespace Text.StringList

/-! ## Lists of texts -/

theorem readUnits_plain {c : Char} (hquote : c ≠ '"') (hslash : c ≠ '\\')
    (hcontrol : ¬ c.toNat < 0x20) (rest : List Char) :
    readUnits (c :: rest) = (readUnits rest).map fun r => (c.toNat :: r.1, r.2) := by
  rw [readUnits]
  · rw [if_neg hcontrol]
    rcases readUnits rest with _ | r <;> rfl
  · exact hquote
  · exact fun a b c d rest' h => absurd h hslash
  · exact fun e rest' h => absurd h hslash

/-- A character is read back as its code, however it is written. -/
theorem readUnits_writeChar (c : Char) (rest : List Char) :
    readUnits (writeChar c ++ rest) = (readUnits rest).map fun r => (c.toNat :: r.1, r.2) := by
  by_cases hquote : c = '"'
  · subst hquote
    rw [show writeChar '"' = ['\\', '"'] from rfl, List.cons_append, List.singleton_append,
      readUnits, shortEscape?]
    · rcases readUnits rest with _ | r <;> rfl
    · nofun
  by_cases hslash : c = '\\'
  · subst hslash
    rw [show writeChar '\\' = ['\\', '\\'] from rfl, List.cons_append, List.singleton_append,
      readUnits, shortEscape?]
    · rcases readUnits rest with _ | r <;> rfl
    · nofun
  have hwrite : writeChar c = if c.toNat < 0x20 then '\\' :: 'u' :: hexDigits 4 c.toNat
      else [c] := by
    unfold writeChar
    split
    · rename_i h
      exact absurd (Char.toNat_inj.1 h) hquote
    · rename_i h
      exact absurd (Char.toNat_inj.1 h) hslash
    · rfl
  by_cases hcontrol : c.toNat < 0x20
  · rw [hwrite, if_pos hcontrol]
    have hcode : numeral? 16 (hexDigits 4 c.toNat) = some c.toNat := by
      rw [numeral?_hexDigits, Nat.mod_eq_of_lt (by omega)]
    simp only [hexDigits, List.nil_append, List.cons_append] at hcode ⊢
    simp only [readUnits, hcode]
    rcases readUnits rest with _ | r <;> rfl
  · rw [hwrite, if_neg hcontrol, List.singleton_append, readUnits_plain hquote hslash hcontrol]

theorem readUnits_written (cs rest : List Char) :
    readUnits (cs.flatMap writeChar ++ '"' :: rest) = some (cs.map Char.toNat, rest) := by
  induction cs with
  | nil => rfl
  | cons c cs ih =>
    rw [List.flatMap_cons, List.append_assoc, readUnits_writeChar, ih, Option.map_some,
      List.map_cons]

theorem not_surrogate (c : Char) : isHigh c.toNat = false ∧ isLow c.toNat = false := by
  have hvalid : c.toNat < 0xd800 ∨ 0xdfff < c.toNat ∧ c.toNat < 0x110000 := c.valid
  simp only [isHigh, isLow, Bool.and_eq_false_iff, decide_eq_false_iff_not]
  omega

/-- The codes of characters need no joining. -/
theorem joinUnits_map_toNat (cs : List Char) : joinUnits (cs.map Char.toNat) = cs := by
  induction cs with
  | nil => rfl
  | cons c cs ih =>
    obtain ⟨hhigh, hlow⟩ := not_surrogate c
    cases cs with
    | nil => simp [joinUnits, hhigh, hlow, Char.ofNat_toNat]
    | cons c' cs => simpa [joinUnits, hhigh, hlow, Char.ofNat_toNat] using ih

theorem lex_writeString (fuel : Nat) (s : String) (rest : List Char) :
    lex (fuel + 1) (writeString s ++ rest) = (lex fuel rest).map (.text s :: ·) := by
  simp only [writeString, List.cons_append, List.append_assoc, List.nil_append, lex,
    readUnits_written, joinUnits_map_toNat, String.ofList_toList, Option.bind_eq_bind,
    Option.bind_some]
  rcases lex fuel rest with _ | ts <;> rfl

/-- The pieces that items with commas between them are written with. -/
def itemLexemes : List String → List Lexeme
  | [] => []
  | [s] => [.text s]
  | s :: ss => .text s :: .comma :: itemLexemes ss

theorem lex_right (fuel : Nat) : lex (fuel + 1) [']'] = some [.right] := by
  simp only [lex, Option.map_some]

theorem lex_writeItems {fuel : Nat} {xs : List String} (h : 2 * xs.length + 1 ≤ fuel) :
    lex fuel (writeItems xs ++ [']']) = some (itemLexemes xs ++ [.right]) := by
  fun_induction writeItems xs generalizing fuel with
  | case1 =>
    obtain ⟨fuel, rfl⟩ : ∃ n, fuel = n + 1 := ⟨fuel - 1, by omega⟩
    exact lex_right fuel
  | case2 s =>
    obtain ⟨fuel, rfl⟩ : ∃ n, fuel = n + 2 := ⟨fuel - 2, by simp at h; omega⟩
    rw [lex_writeString, lex_right]
    rfl
  | case3 s ss hss ih =>
    obtain ⟨fuel, rfl⟩ : ∃ n, fuel = n + 2 := ⟨fuel - 2, by simp at h; omega⟩
    have hrest : 2 * ss.length + 1 ≤ fuel := by simp at h; omega
    rw [List.append_assoc, lex_writeString, List.cons_append, lex]
    rw [ih hrest]
    cases ss with
    | nil => exact absurd rfl hss
    | cons s' ss => rfl

theorem readItems_itemLexemes {xs : List String} (h : xs ≠ []) :
    readItems (itemLexemes xs ++ [.right]) = some xs := by
  fun_induction itemLexemes xs with
  | case1 => exact absurd rfl h
  | case2 s => rfl
  | case3 s ss hss ih => simp only [List.cons_append, readItems, ih hss, Option.map_some]

theorem two_mul_length_le (xs : List String) : 2 * xs.length ≤ (writeItems xs).length := by
  fun_induction writeItems xs with
  | case1 => simp
  | case2 s => simp [writeString]
  | case3 s ss hss ih => simp [writeString]; omega

/-- A list of texts is read back as it was written. -/
theorem decode_encode (xs : List String) : decode (encode xs) = some (some xs) := by
  have hlex : lex ((encode xs).length + 1) (encode xs).toList =
      some (.left :: itemLexemes xs ++ [.right]) := by
    have hwritten : (encode xs).toList = '[' :: (writeItems xs ++ [']']) := String.toList_ofList
    have hfuel : 2 * xs.length + 1 ≤ (encode xs).length := by
      have := two_mul_length_le xs
      rw [← String.length_toList, hwritten]
      simp only [List.length_cons, List.length_append]
      omega
    rw [hwritten, lex, lex_writeItems hfuel]
    rfl
  unfold decode
  rw [hlex]
  cases xs with
  | nil => rfl
  | cons x xs =>
    have hitems := readItems_itemLexemes (List.cons_ne_nil x xs)
    cases xs with
    | nil => rfl
    | cons x' xs =>
      simp only [itemLexemes, List.cons_append] at hitems ⊢
      simp [hitems]

end Text.StringList

namespace RunId

/-! ## Run identities -/

/-- The bytes of a text are its characters as long as all of them are single bytes. -/
theorem byteChars_ofList {cs : List Char} (h : ∀ c ∈ cs, c.toNat < 128) :
    byteChars (String.ofList cs) = cs := by
  rw [byteChars, Text.toList_toUTF8, String.toList_ofList]
  induction cs with
  | nil => rfl
  | cons c cs ih =>
    obtain ⟨hc, hcs⟩ := List.forall_mem_cons.1 h
    have hsize : c.utf8Size = 1 := by
      rw [Char.utf8Size_eq_one_iff, UInt32.le_iff_toNat_le]
      exact Nat.le_of_lt_succ hc
    rw [List.flatMap_cons, List.map_append, ih hcs, String.utf8EncodeChar_eq_singleton hsize]
    have hcode : c.val.toUInt8.toNat = c.toNat := by
      rw [UInt32.toNat_toUInt8]
      exact Nat.mod_eq_of_lt (Nat.lt_trans hc (by decide))
    rw [List.map_singleton, hcode, Char.ofNat_toNat, List.singleton_append]

/-- Five groups of the right sizes are read as the digits in them. -/
theorem ofGroups?_groups {g₁ g₂ g₃ g₄ g₅ : List Char} (h₁ : g₁.length = 8) (h₂ : g₂.length = 4)
    (h₃ : g₃.length = 4) (h₄ : g₄.length = 4) (h₅ : g₅.length = 12) :
    ofGroups? (g₁ ++ '-' :: g₂ ++ '-' :: g₃ ++ '-' :: g₄ ++ '-' :: g₅) =
      ofDigits? (g₁ ++ g₂ ++ g₃ ++ g₄ ++ g₅) := by
  have hlast : g₅.take 12 = g₅ := List.take_of_length_le (by omega)
  simp (disch := omega) [ofGroups?, List.drop_append, List.drop_eq_nil_of_le, h₁, h₂, h₃, h₄, hlast]

/-- An identity is read back as it was written. -/
theorem parse?_text (id : RunId) : parse? id.text = some id := by
  have hlength := Text.length_hexDigits 32 id.bits.toNat
  have hascii : ∀ c ∈ Text.hexDigits 32 id.bits.toNat, c.toNat < 128 :=
    fun c hc => Text.lt_of_mem_hexDigits hc
  have hread : ofDigits? (Text.hexDigits 32 id.bits.toNat) = some id := by
    have hbits : id.bits.toNat < 16 ^ 32 := id.bits.isLt
    rw [ofDigits?, Text.numeral?_hexDigits, Nat.mod_eq_of_lt hbits, Option.map_some, ofNat,
      BitVec.ofNat_toNat, BitVec.setWidth_eq]
  simp only [text]
  generalize Text.hexDigits 32 id.bits.toNat = ds at hlength hascii hread
  have hsizes : ((ds.drop 0).take 8).length = 8 ∧ ((ds.drop 8).take 4).length = 4 ∧
      ((ds.drop 12).take 4).length = 4 ∧
      ((ds.drop 16).take 4).length = 4 ∧ ((ds.drop 20).take 12).length = 12 := by
    simp [hlength]
  have hjoin : (ds.drop 0).take 8 ++ (ds.drop 8).take 4 ++ (ds.drop 12).take 4 ++
      (ds.drop 16).take 4
      ++ (ds.drop 20).take 12 = ds := by
    rw [List.drop_zero, ← List.take_add, ← List.take_add, ← List.take_add, ← List.take_add,
      List.take_of_length_le (by omega)]
  obtain ⟨h₁, h₂, h₃, h₄, h₅⟩ := hsizes
  have hgroup : ∀ start size, ∀ c ∈ (ds.drop start).take size, c.toNat < 128 :=
    fun start size c hc =>
      hascii c (List.mem_of_mem_drop (List.mem_of_mem_take hc))
  rw [parse?, byteChars_ofList]
  · simp only [List.length_append, List.length_cons, h₁, h₂, h₃, h₄, h₅]
    rw [ofGroups?_groups h₁ h₂ h₃ h₄ h₅, hjoin, hread]
  · have hdash : '-'.toNat < 128 := by decide
    simp only [List.forall_mem_append, List.forall_mem_cons]
    exact ⟨⟨⟨⟨hgroup 0 8, hdash, hgroup 8 4⟩, hdash, hgroup 12 4⟩, hdash, hgroup 16 4⟩, hdash,
      hgroup 20 12⟩

end RunId

namespace Database

/-! ## Rows -/

/-- A signature with a list of regions is read back as it was stored. -/
theorem read_rowOf {sig : Signature} (h : sig.regions.isSome) :
    read sig.module sig.symbol (rowOf sig) = .ok sig := by
  obtain ⟨regions, hregions⟩ := Option.isSome_iff_exists.1 h
  simp only [read, rowOf, hregions, Option.getD_some, Text.StringList.decode_encode,
    RunId.parse?_text]
  rw [← hregions]

end Database

end RegionCapture
