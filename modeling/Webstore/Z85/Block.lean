/-
  Webstore.Z85.Block

  What a Z85 block is: the length of the message modulo four, then each group
  of four bytes as five digits in base 85, the last group filled up with
  zeros.  Decoding gives the message back, and a block is made of the
  characters of the alphabet only.
-/
import Mathlib.Data.List.GetD
import Webstore.Radix
import Webstore.Z85

namespace Webstore

open Webstore.Libc

namespace Z85

/-! ## Digits and characters -/

/-- The character of a digit. -/
def digitChar (d : Nat) : UInt8 := base85.getD d 0

/-- The digit of a character. -/
def charDigit (c : UInt8) : Nat := (base256.getD (charIndex c) 0).toNat

@[simp] theorem length_base85 : base85.length = 85 := by decide

@[simp] theorem length_base256 : base256.length = 96 := by decide

theorem digitChar_mem {d : Nat} (h : d < 85) : digitChar d ∈ base85 := by
  have hlt : d < base85.length := by simpa using h
  rw [digitChar, List.getD_eq_getElem _ _ hlt]
  exact List.getElem_mem hlt

/-- The two tables are inverse to each other. -/
theorem charDigit_digitChar {d : Nat} (h : d < 85) : charDigit (digitChar d) = d := by
  have hall : ∀ d : Fin 85, charDigit (digitChar d) = d := by decide +kernel
  exact hall ⟨d, h⟩

/-- The inverse table has an entry for the character. -/
def readable (c : UInt8) : Bool := charIndex c < base256.length

theorem readable_of_mem {c : UInt8} (h : c ∈ base85) : readable c = true := by
  have hall : ∀ c ∈ base85, readable c = true := by decide +kernel
  exact hall c h

/-! ## Words -/

/-- The digits of a group of four bytes. -/
def encodeWord (g : Bytes) : Bytes :=
  (Radix.digits 85 5 (Radix.value 256 (g.map UInt8.toNat))).map digitChar

/-- The bytes of a group of five digits. -/
def decodeWord (g : Bytes) : Bytes :=
  (Radix.digits 256 4 (Radix.value 85 (g.map charDigit))).map Nat.toUInt8

@[simp] theorem length_encodeWord (g : Bytes) : (encodeWord g).length = 5 := by
  simp [encodeWord]

@[simp] theorem length_decodeWord (g : Bytes) : (decodeWord g).length = 4 := by
  simp [decodeWord]

theorem encodeWord_mem {g : Bytes} {c : UInt8} (h : c ∈ encodeWord g) : c ∈ base85 := by
  obtain ⟨d, hd, rfl⟩ := List.mem_map.mp h
  exact digitChar_mem (Radix.lt_of_mem_digits (by decide) hd)

theorem toNat_lt_of_mem {g : Bytes} {d : Nat} (h : d ∈ g.map UInt8.toNat) : d < 256 := by
  obtain ⟨c, -, rfl⟩ := List.mem_map.mp h
  exact c.toNat_lt

theorem map_toUInt8_toNat (g : Bytes) : (g.map UInt8.toNat).map Nat.toUInt8 = g := by
  rw [List.map_map]
  exact List.map_id'' (fun c => UInt8.ofNat_toNat) g

theorem decodeWord_encodeWord {g : Bytes} (h : g.length = 4) : decodeWord (encodeWord g) = g := by
  have hdigits : (encodeWord g).map charDigit =
      Radix.digits 85 5 (Radix.value 256 (g.map UInt8.toNat)) := by
    rw [encodeWord, List.map_map]
    conv_rhs => rw [← List.map_id (Radix.digits 85 5 _)]
    apply List.map_congr_left
    intro d hd
    exact charDigit_digitChar (Radix.lt_of_mem_digits (by decide) hd)
  have hfits : Radix.value 256 (g.map UInt8.toNat) < 85 ^ 5 := by
    have hlt := Radix.value_lt (b := 256) fun d hd => toNat_lt_of_mem (g := g) hd
    rw [List.length_map, h] at hlt
    omega
  have hbytes := Radix.digits_value (g.map UInt8.toNat) fun d hd => toNat_lt_of_mem hd
  rw [List.length_map, h] at hbytes
  rw [decodeWord, hdigits, Radix.value_digits hfits, hbytes, map_toUInt8_toNat]

/-! ## Groups -/

/-- Group by group; what does not fill a group is dropped. -/
def encodeGroups : Bytes → Bytes
  | a :: b :: c :: d :: src => encodeWord [a, b, c, d] ++ encodeGroups src
  | _ => []

/-- Group by group. -/
def decodeGroups : Bytes → Bytes
  | a :: b :: c :: d :: e :: src => decodeWord [a, b, c, d, e] ++ decodeGroups src
  | _ => []

@[simp] theorem encodeGroups_nil : encodeGroups [] = [] := rfl

@[simp] theorem decodeGroups_nil : decodeGroups [] = [] := rfl

theorem exists_four (src : Bytes) (h : 4 ≤ src.length) :
    ∃ a b c d rest, src = a :: b :: c :: d :: rest := by
  match src, h with
  | a :: b :: c :: d :: rest, _ => exact ⟨a, b, c, d, rest, rfl⟩

theorem exists_five (src : Bytes) (h : 5 ≤ src.length) :
    ∃ a b c d e rest, src = a :: b :: c :: d :: e :: rest := by
  match src, h with
  | a :: b :: c :: d :: e :: rest, _ => exact ⟨a, b, c, d, e, rest, rfl⟩

theorem decodeGroups_word {g : Bytes} (h : g.length = 5) (src : Bytes) :
    decodeGroups (g ++ src) = decodeWord g ++ decodeGroups src := by
  obtain ⟨a, b, c, d, e, rest, rfl⟩ := exists_five g (Nat.le_of_eq h.symm)
  obtain rfl : rest = [] := by simpa using h
  rfl

theorem encodeGroups_append {k : Nat} {src : Bytes} (h : src.length = 4 * k) (src' : Bytes) :
    encodeGroups (src ++ src') = encodeGroups src ++ encodeGroups src' := by
  induction k generalizing src with
  | zero =>
      obtain rfl : src = [] := List.length_eq_zero_iff.mp h
      rfl
  | succ k ih =>
      obtain ⟨a, b, c, d, rest, rfl⟩ := exists_four src (by omega)
      have hrest : rest.length = 4 * k := by
        simp only [List.length_cons] at h
        omega
      simp only [List.cons_append, encodeGroups, ih hrest, List.append_assoc]

theorem length_encodeGroups {k : Nat} {src : Bytes} (h : src.length = 4 * k) :
    (encodeGroups src).length = 5 * k := by
  induction k generalizing src with
  | zero =>
      obtain rfl : src = [] := List.length_eq_zero_iff.mp h
      rfl
  | succ k ih =>
      obtain ⟨a, b, c, d, rest, rfl⟩ := exists_four src (by omega)
      have hrest : rest.length = 4 * k := by
        simp only [List.length_cons] at h
        omega
      simp only [encodeGroups, List.length_append, length_encodeWord, ih hrest]
      omega

theorem encodeGroups_mem {src : Bytes} {c : UInt8} (h : c ∈ encodeGroups src) : c ∈ base85 := by
  fun_induction encodeGroups src with
  | case1 a b c' d src ih =>
      rcases List.mem_append.mp h with h | h
      · exact encodeWord_mem h
      · exact ih h
  | case2 => cases h

theorem decodeGroups_encodeGroups {k : Nat} {src : Bytes} (h : src.length = 4 * k) :
    decodeGroups (encodeGroups src) = src := by
  induction k generalizing src with
  | zero =>
      obtain rfl : src = [] := List.length_eq_zero_iff.mp h
      rfl
  | succ k ih =>
      obtain ⟨a, b, c, d, rest, rfl⟩ := exists_four src (by omega)
      have hrest : rest.length = 4 * k := by
        simp only [List.length_cons] at h
        omega
      rw [encodeGroups, decodeGroups_word (length_encodeWord _), decodeWord_encodeWord rfl,
        ih hrest]
      rfl

theorem decodeGroups_append {k : Nat} {src : Bytes} (h : src.length = 5 * k) (src' : Bytes) :
    decodeGroups (src ++ src') = decodeGroups src ++ decodeGroups src' := by
  induction k generalizing src with
  | zero =>
      obtain rfl : src = [] := List.length_eq_zero_iff.mp h
      rfl
  | succ k ih =>
      obtain ⟨a, b, c, d, e, rest, rfl⟩ := exists_five src (by omega)
      have hrest : rest.length = 5 * k := by
        simp only [List.length_cons] at h
        omega
      simp only [List.cons_append, decodeGroups, ih hrest, List.append_assoc]

theorem length_decodeGroups {k : Nat} {src : Bytes} (h : src.length = 5 * k) :
    (decodeGroups src).length = 4 * k := by
  induction k generalizing src with
  | zero =>
      obtain rfl : src = [] := List.length_eq_zero_iff.mp h
      rfl
  | succ k ih =>
      obtain ⟨a, b, c, d, e, rest, rfl⟩ := exists_five src (by omega)
      have hrest : rest.length = 5 * k := by
        simp only [List.length_cons] at h
        omega
      simp only [decodeGroups, List.length_append, length_decodeWord, ih hrest]
      omega

/-! ## Bodies -/

/-- The count that the first character gives. -/
def padCount (c : UInt8) : Nat := (c - 48).toNat

theorem padCount_range {c : UInt8} : 49 ≤ c ∧ c ≤ 52 → 1 ≤ padCount c ∧ padCount c ≤ 4 :=
  forall_byte (p := fun c => 49 ≤ c ∧ c ≤ 52 → 1 ≤ padCount c ∧ padCount c ≤ 4)
    (by decide +kernel) c

/-- A body the decoder does not assert away: whole groups behind a count. -/
structure Padded (b : Bytes) (c : UInt8) (chars : Bytes) (k : Nat) : Prop where
  body : b = c :: chars
  count : 49 ≤ c ∧ c ≤ 52
  groups : chars.length = 5 * (k + 1)

/-- How many bytes such a body stands for. -/
def decodedLength (c : UInt8) (k : Nat) : Nat := 4 * k + padCount c

/-- The bytes it stands for. -/
def decoded (c : UInt8) (chars : Bytes) (k : Nat) : Bytes :=
  (decodeGroups chars).take (decodedLength c k)

theorem length_decoded {b : Bytes} {c : UInt8} {chars : Bytes} {k : Nat} (hb : Padded b c chars k) :
    (decoded c chars k).length = decodedLength c k := by
  have hcount := padCount_range hb.count
  rw [decoded, List.length_take, length_decodeGroups hb.groups]
  unfold decodedLength
  omega

theorem decodedLength_pos {b : Bytes} {c : UInt8} {chars : Bytes} {k : Nat}
    (hb : Padded b c chars k) :
    0 < decodedLength c k := by
  have hcount := padCount_range hb.count
  unfold decodedLength
  omega

/-! ## Blocks -/

/-- How many bytes of the last group belong to the message. -/
def tailCount (n : Nat) : Nat := (n + 3) % 4 + 1

/-- The message, filled up to whole groups. -/
def padded (m : Bytes) : Bytes := m ++ List.replicate (4 - tailCount m.length) 0

/-- The block of a message. -/
def block (m : Bytes) : Bytes := (48 + tailCount m.length).toUInt8 :: encodeGroups (padded m)

theorem length_padded (m : Bytes) (hm : m ≠ []) :
    (padded m).length = 4 * ((m.length + 3) / 4) := by
  have hpos : 0 < m.length := List.length_pos_iff.mpr hm
  simp only [padded, tailCount, List.length_append, List.length_replicate]
  omega

theorem length_block {m : Bytes} (hm : m ≠ []) :
    (block m).length = 1 + 5 * ((m.length + 3) / 4) := by
  rw [block, List.length_cons, length_encodeGroups (length_padded m hm)]
  omega

/-- The first character of a block is a digit from 1 to 4. -/
theorem tailCount_cases (n : Nat) :
    tailCount n = 1 ∨ tailCount n = 2 ∨ tailCount n = 3 ∨ tailCount n = 4 := by
  unfold tailCount
  omega

theorem block_mem {m : Bytes} {c : UInt8} (h : c ∈ block m) : c ∈ base85 := by
  rcases List.mem_cons.mp h with rfl | h
  · rcases tailCount_cases m.length with h | h | h | h <;>
      · rw [h]
        decide
  · exact encodeGroups_mem h

theorem nulFree_block (m : Bytes) : NulFree (block m) := by
  have hall : base85.all (· != 0) = true := by decide
  exact fun c hc => by simpa using List.all_eq_true.mp hall c (block_mem hc)

end Z85

end Webstore
