/-
  Webstore.Z85.Refine

  The codec as it is written computes blocks.  Each function is one copy into
  its destination: of the block, or of the message.  It faults exactly when
  that copy does not fit.
-/
import Webstore.Libc.Memory
import Webstore.Z85.Block

namespace Webstore

open Webstore.Libc

namespace Z85

/-! ## One frame -/

/-- The multiplication divides every 32-bit word by 85. -/
theorem toNat_div85 (v : UInt32) : (div85 v).toNat = v.toNat / 85 := by
  have hv := v.toNat_lt
  simp only [div85, UInt32.toNat_shiftRight, UInt64.toNat_toUInt32, UInt64.toNat_shiftRight,
    UInt64.toNat_mul, UInt32.toNat_toUInt64, UInt64.toNat_ofNat, UInt32.toNat_ofNat,
    Nat.shiftRight_eq_div_pow]
  simp only [Nat.reduceMod, Nat.reducePow] at *
  -- neither the product nor its upper half is cut off
  rw [Nat.mod_eq_of_lt (by omega : 3233857729 * v.toNat < 18446744073709551616),
    Nat.mod_eq_of_lt (by omega : 3233857729 * v.toNat / 4294967296 < 4294967296)]
  omega

theorem toNat_sub_div85 (v : UInt32) : (v - div85 v * 85).toNat = v.toNat % 85 := by
  have hv : v.toNat < 2 ^ 32 := v.toNat_lt
  have hmul : (div85 v * 85).toNat = v.toNat / 85 * 85 := by
    rw [UInt32.toNat_mul, toNat_div85]
    exact Nat.mod_eq_of_lt (by change v.toNat / 85 * 85 < _; omega)
  have hle : div85 v * 85 ≤ v := by
    rw [UInt32.le_iff_toNat_le, hmul]
    omega
  rw [UInt32.toNat_sub_of_le _ _ hle, hmul]
  omega

theorem load_base85 {d : Nat} (h : d < 85) : load base85 d = .ok (digitChar d) := by
  have hlt : d < base85.length := by simpa using h
  rw [load_eq hlt, digitChar, List.getD_eq_getElem _ _ hlt]

theorem encodeFrame_eq (dest : Bytes) (dst : Nat) (v : UInt32) :
    encodeFrame dest dst v = memcpy dest dst ((Radix.digits 85 5 v.toNat).map digitChar) := by
  have hv : v.toNat < 2 ^ 32 := v.toNat_lt
  have htop : v.toNat / 85 / 85 / 85 / 85 < 85 := by omega
  have hmod (n : Nat) : n % 85 < 85 := Nat.mod_lt n (by decide)
  simp only [encodeFrame, toNat_sub_div85, toNat_div85, load_base85, hmod, htop, ok_bind]
  -- the characters go in from the last to the first
  rw [store_eq_memcpy dest]
  simp only [memcpy_store, ← bind_assoc]
  simp only [Radix.digits, List.nil_append, List.cons_append, List.map_cons, List.map_nil,
    Nat.mod_eq_of_lt htop]

/-- Four bytes as a big-endian word. -/
theorem toNat_frame (a b c d : UInt8) :
    ((a.toUInt32 <<< 24) ||| (b.toUInt32 <<< 16) ||| (c.toUInt32 <<< 8) ||| d.toUInt32).toNat =
      Radix.value 256 ([a, b, c, d].map UInt8.toNat) := by
  have ha := a.toNat_lt
  have hb := b.toNat_lt
  have hc := c.toNat_lt
  have hd := d.toNat_lt
  -- the bytes do not overlap, so that each or is a sum
  have hcd : c.toNat <<< 8 ||| d.toNat = c.toNat * 2 ^ 8 + d.toNat := by
    rw [← Nat.shiftLeft_add_eq_or_of_lt hd, Nat.shiftLeft_eq]
  have hbcd : b.toNat <<< 16 ||| (c.toNat * 2 ^ 8 + d.toNat) =
      b.toNat * 2 ^ 16 + (c.toNat * 2 ^ 8 + d.toNat) := by
    rw [← Nat.shiftLeft_add_eq_or_of_lt (by omega), Nat.shiftLeft_eq]
  have habcd : a.toNat <<< 24 ||| (b.toNat * 2 ^ 16 + (c.toNat * 2 ^ 8 + d.toNat)) =
      a.toNat * 2 ^ 24 + (b.toNat * 2 ^ 16 + (c.toNat * 2 ^ 8 + d.toNat)) := by
    rw [← Nat.shiftLeft_add_eq_or_of_lt (by omega), Nat.shiftLeft_eq]
  have hshift (x : UInt8) (k : Nat) (hk : k ≤ 24) :
      x.toNat <<< k % 2 ^ 32 = x.toNat <<< k := by
    have hx := x.toNat_lt
    rw [Nat.shiftLeft_eq]
    apply Nat.mod_eq_of_lt
    calc x.toNat * 2 ^ k
      _ ≤ x.toNat * 2 ^ 24 := Nat.mul_le_mul_left _ (Nat.pow_le_pow_right (by decide) hk)
      _ < 2 ^ 32 := by omega
  simp only [UInt32.toNat_or, UInt32.toNat_shiftLeft, UInt8.toNat_toUInt32, UInt32.toNat_ofNat]
  rw [hshift a 24 (by decide), hshift b 16 (by decide), hshift c 8 (by decide), Nat.or_assoc,
    Nat.or_assoc, hcd, hbcd, habcd]
  simp only [Radix.value, List.map_cons, List.map_nil, List.foldl_cons, List.foldl_nil]
  omega

theorem toNat_byte (v k : UInt32) (hk : k.toNat < 32) :
    (v >>> k).toUInt8.toNat = v.toNat / 2 ^ k.toNat % 256 := by
  rw [UInt32.toNat_toUInt8, UInt32.toNat_shiftRight, Nat.mod_eq_of_lt hk, Nat.shiftRight_eq_div_pow]

/-- The bytes of a word, from the most significant on. -/
theorem unpack_frame (v : UInt32) :
    [(v >>> 24).toUInt8, (v >>> 16).toUInt8, (v >>> 8).toUInt8, v.toUInt8] =
      (Radix.digits 256 4 v.toNat).map Nat.toUInt8 := by
  have hbyte {x : UInt8} {n : Nat} (h : x.toNat = n % 256) : x = (n % 256).toUInt8 := by
    rw [← h]
    exact UInt8.ofNat_toNat.symm
  have h₂₄ : (v >>> 24).toUInt8.toNat = v.toNat / 256 / 256 / 256 % 256 := by
    rw [toNat_byte v 24 (by decide), Nat.div_div_eq_div_mul, Nat.div_div_eq_div_mul]
    rfl
  have h₁₆ : (v >>> 16).toUInt8.toNat = v.toNat / 256 / 256 % 256 := by
    rw [toNat_byte v 16 (by decide), Nat.div_div_eq_div_mul]
    rfl
  have h₈ : (v >>> 8).toUInt8.toNat = v.toNat / 256 % 256 := toNat_byte v 8 (by decide)
  have h₀ : v.toUInt8.toNat = v.toNat % 256 := UInt32.toNat_toUInt8 v
  simp only [Radix.digits, List.nil_append, List.cons_append, List.map_cons, List.map_nil,
    hbyte h₂₄, hbyte h₁₆, hbyte h₈, hbyte h₀]

theorem load_base256 {c : UInt8} (h : readable c = true) :
    load base256 (charIndex c) = .ok (base256.getD (charIndex c) 0) := by
  have hlt : charIndex c < base256.length := of_decide_eq_true h
  rw [load_eq hlt, List.getD_eq_getElem _ _ hlt]

theorem load_base256_outside {c : UInt8} (h : readable c = false) :
    load base256 (charIndex c) = .error .outOfBounds := by
  have hle : ¬ charIndex c < base256.length := of_decide_eq_false h
  simp [load, List.getElem?_eq_none (Nat.le_of_not_lt hle)]

/-- One more digit, in a word that wraps. -/
theorem toNat_shift85 {v : UInt32} {n : Nat} (h : v.toNat = n % 256 ^ 4) (x : UInt8) :
    (v * 85 + x.toUInt32).toNat = (n * 85 + x.toNat) % 256 ^ 4 := by
  simp only [UInt32.toNat_add, UInt32.toNat_mul, UInt8.toNat_toUInt32, UInt32.toNat_ofNat, h]
  omega

/-- Five characters that can be read are decoded to the bytes of their word. -/
theorem decodeFrame_eq (dest : Bytes) (dst : Nat) {a b c d e : UInt8}
    (h : [a, b, c, d, e].all readable = true) :
    decodeFrame dest dst a b c d e = memcpy dest dst (decodeWord [a, b, c, d, e]) := by
  simp only [List.all_cons, List.all_nil, Bool.and_eq_true, and_true] at h
  obtain ⟨ha, hb, hc, hd, he⟩ := h
  have hfirst (x : UInt8) : x.toUInt32.toNat = x.toNat % 256 ^ 4 := by
    have hx := x.toNat_lt
    rw [UInt8.toNat_toUInt32]
    omega
  have hvalue := toNat_shift85 (toNat_shift85 (toNat_shift85 (toNat_shift85
    (hfirst (base256.getD (charIndex a) 0)) (base256.getD (charIndex b) 0))
    (base256.getD (charIndex c) 0)) (base256.getD (charIndex d) 0))
    (base256.getD (charIndex e) 0)
  simp only [decodeFrame, load_base256 ha, load_base256 hb, load_base256 hc, load_base256 hd,
    load_base256 he, ok_bind]
  generalize ((((base256.getD (charIndex a) 0).toUInt32 * 85 +
    (base256.getD (charIndex b) 0).toUInt32) * 85 + (base256.getD (charIndex c) 0).toUInt32) * 85 +
    (base256.getD (charIndex d) 0).toUInt32) * 85 + (base256.getD (charIndex e) 0).toUInt32 = v
    at hvalue ⊢
  have hword : decodeWord [a, b, c, d, e] =
      [(v >>> 24).toUInt8, (v >>> 16).toUInt8, (v >>> 8).toUInt8, v.toUInt8] := by
    rw [unpack_frame, hvalue, Radix.digits_mod]
    simp only [decodeWord, Radix.value, charDigit, List.map_cons, List.map_nil, List.foldl_cons,
      List.foldl_nil, Nat.zero_mul, Nat.zero_add]
  -- the bytes go in from the first to the last
  rw [hword]
  change _ = memcpy dest dst ((([_] ++ [_]) ++ [_]) ++ [_])
  simp only [← memcpy_memcpy, bind_assoc, store_eq_memcpy]
  rfl

/-- A character the inverse table has no entry for is read beyond its end. -/
theorem decodeFrame_outside (dest : Bytes) (dst : Nat) {a b c d e : UInt8}
    (h : ¬ [a, b, c, d, e].all readable = true) :
    decodeFrame dest dst a b c d e = .error .outOfBounds := by
  -- the first character that cannot be read stops it
  cases ha : readable a
  · simp only [decodeFrame, load_base256_outside ha, error_bind]
  cases hb : readable b
  · simp only [decodeFrame, load_base256 ha, load_base256_outside hb, ok_bind, error_bind]
  cases hc : readable c
  · simp only [decodeFrame, load_base256 ha, load_base256 hb, load_base256_outside hc, ok_bind,
      error_bind]
  cases hd : readable d
  · simp only [decodeFrame, load_base256 ha, load_base256 hb, load_base256 hc,
      load_base256_outside hd, ok_bind, error_bind]
  cases he : readable e
  · simp only [decodeFrame, load_base256 ha, load_base256 hb, load_base256 hc, load_base256 hd,
      load_base256_outside he, ok_bind, error_bind]
  · exact absurd (by simp [ha, hb, hc, hd, he]) h

/-! ## The loops -/

theorem encodeUnsafe_zero (dest : Bytes) (dst : Nat) (src : Bytes) :
    encodeUnsafe 0 dest dst src = .ok (dest, dst) := by
  unfold encodeUnsafe
  split <;> rfl

theorem decodeUnsafe_zero (dest : Bytes) (dst : Nat) (src : Bytes) :
    decodeUnsafe 0 dest dst src = .ok (dest, dst) := by
  unfold decodeUnsafe
  split <;> rfl

/-- The loop over `k` frames. -/
theorem encodeUnsafe_eq (k dst : Nat) (dest : Bytes) {src : Bytes} (hdst : dst ≤ dest.length)
    (hsrc : src.length = 4 * k) (rest : Bytes) :
    encodeUnsafe (4 * k : Nat) dest dst (src ++ rest) =
      (memcpy dest dst (encodeGroups src) >>= fun dest => .ok (dest, dst + 5 * k)) := by
  induction k generalizing dst dest src with
  | zero =>
      obtain rfl : src = [] := List.length_eq_zero_iff.mp hsrc
      rw [encodeGroups_nil, memcpy_nil hdst]
      exact encodeUnsafe_zero _ _ _
  | succ k ih =>
      obtain ⟨a, b, c, d, src, rfl⟩ := exists_four src (by omega)
      have hsrc' : src.length = 4 * k := by
        simp only [List.length_cons] at hsrc
        omega
      have hne : ¬ ((4 * (k + 1) : Nat) : Int) = 0 := by omega
      have hsub : ((4 * (k + 1) : Nat) : Int) - 4 = (4 * k : Nat) := by omega
      -- one frame is a copy of five characters
      have hframe : encodeUnsafe (4 * (k + 1) : Nat) dest dst (a :: b :: c :: d :: src ++ rest) =
          (memcpy dest dst (encodeWord [a, b, c, d]) >>= fun dest =>
            encodeUnsafe (4 * k : Nat) dest (dst + 5) (src ++ rest)) := by
        simp only [List.cons_append]
        rw [encodeUnsafe, if_neg hne, hsub]
        simp only [encodeFrame_eq, toNat_frame]
        rfl
      rw [hframe, encodeGroups, ← memcpy_memcpy, length_encodeWord]
      cases hw : memcpy dest dst (encodeWord [a, b, c, d]) with
      | error e => rfl
      | ok dest' =>
          obtain ⟨hfits, hlen⟩ := length_of_memcpy hw
          rw [length_encodeWord] at hfits
          rw [ok_bind, ok_bind, ih (dst + 5) dest' (by omega) hsrc', Nat.mul_succ, Nat.add_assoc,
            Nat.add_comm 5]

/-- The loop over `k` frames of characters. -/
theorem decodeUnsafe_eq (k dst : Nat) (dest : Bytes) {src : Bytes} (hdst : dst ≤ dest.length)
    (hsrc : src.length = 5 * k) (rest : Bytes) :
    decodeUnsafe (5 * k : Nat) dest dst (src ++ rest) =
      if src.all readable = true then
        memcpy dest dst (decodeGroups src) >>= fun dest => .ok (dest, dst + 4 * k)
      else .error .outOfBounds := by
  induction k generalizing dst dest src with
  | zero =>
      obtain rfl : src = [] := List.length_eq_zero_iff.mp hsrc
      rw [decodeGroups_nil, memcpy_nil hdst]
      exact decodeUnsafe_zero _ _ _
  | succ k ih =>
      obtain ⟨a, b, c, d, e, src, rfl⟩ := exists_five src (by omega)
      have hsrc' : src.length = 5 * k := by
        simp only [List.length_cons] at hsrc
        omega
      have hne : ¬ ((5 * (k + 1) : Nat) : Int) = 0 := by omega
      have hsub : ((5 * (k + 1) : Nat) : Int) - 5 = (5 * k : Nat) := by omega
      have hall : (a :: b :: c :: d :: e :: src).all readable =
          ([a, b, c, d, e].all readable && src.all readable) :=
        @List.all_append _ readable [a, b, c, d, e] src
      have hstep :
          decodeUnsafe (5 * (k + 1) : Nat) dest dst (a :: b :: c :: d :: e :: src ++ rest) =
          (decodeFrame dest dst a b c d e >>= fun dest =>
            decodeUnsafe (5 * k : Nat) dest (dst + 4) (src ++ rest)) := by
        simp only [List.cons_append]
        rw [decodeUnsafe, if_neg hne, hsub]
      rw [hstep, hall]
      by_cases hframe : [a, b, c, d, e].all readable = true
      · rw [decodeFrame_eq _ _ hframe, hframe, Bool.true_and, decodeGroups, ← memcpy_memcpy,
          length_decodeWord]
        cases hw : memcpy dest dst (decodeWord [a, b, c, d, e]) with
        | error f =>
            -- the only fault there is
            have hf : f = .outOfBounds := fault_of_memcpy hw
            rw [hf, error_bind, error_bind, error_bind, ite_self]
        | ok dest' =>
            obtain ⟨hfits, hlen⟩ := length_of_memcpy hw
            rw [length_decodeWord] at hfits
            rw [ok_bind, ok_bind, ih (dst + 4) dest' (by omega) hsrc', Nat.mul_succ, Nat.add_assoc,
              Nat.add_comm 4]
      · rw [decodeFrame_outside _ _ hframe, error_bind, Bool.eq_false_of_not_eq_true hframe,
          Bool.false_and, if_neg Bool.false_ne_true]

/-! ## Encoding with padding -/

theorem padChar_eq (n : Nat) :
    (if n % 4 = 0 then 52 else 48 + (n % 4).toUInt8) = (48 + tailCount n).toUInt8 := by
  have hcases : n % 4 = 0 ∨ n % 4 = 1 ∨ n % 4 = 2 ∨ n % 4 = 3 := by omega
  rcases hcases with h | h | h | h
  · have ht : tailCount n = 4 := by unfold tailCount; omega
    rw [h, ht]
    rfl
  · have ht : tailCount n = 1 := by unfold tailCount; omega
    rw [h, ht]
    rfl
  · have ht : tailCount n = 2 := by unfold tailCount; omega
    rw [h, ht]
    rfl
  · have ht : tailCount n = 3 := by unfold tailCount; omega
    rw [h, ht]
    rfl

/-- A message as whole groups and the bytes that are left. -/
theorem exists_body (m : Bytes) :
    ∃ k body tail, m = body ++ tail ∧ body.length = 4 * k ∧ tail.length = m.length % 4 := by
  refine ⟨m.length / 4, m.take (4 * (m.length / 4)), m.drop (4 * (m.length / 4)),
    (List.take_append_drop _ m).symm, ?_, ?_⟩
  · rw [List.length_take]
    omega
  · rw [List.length_drop]
    omega

theorem encodeGroups_padded {m body tail : Bytes} {k : Nat} (hsplit : m = body ++ tail)
    (hbody : body.length = 4 * k) :
    encodeGroups (padded m) = encodeGroups body ++
      encodeGroups (tail ++ List.replicate (4 - tailCount m.length) 0) := by
  rw [padded, hsplit, List.append_assoc, encodeGroups_append hbody]

/-- The encoder writes the block, and nothing behind it. -/
theorem encodeWithPadding_eq {m : Bytes} (hm : m ≠ []) (rest dest : Bytes) :
    encodeWithPadding (m ++ rest) dest m.length =
      (memcpy dest 0 (block m) >>= fun dest => .ok (dest, (block m).length)) := by
  obtain ⟨k, body, tail, hsplit, hbody, htail⟩ := exists_body m
  have hpos : m.length ≠ 0 := fun h => hm (List.length_eq_zero_iff.mp h)
  have hlen : m.length = 4 * k + tail.length := by rw [hsplit, List.length_append, hbody]
  have hdrop : (m ++ rest).drop (m.length - m.length % 4) = tail ++ rest := by
    rw [← htail, hlen, Nat.add_sub_cancel, hsplit, ← hbody, List.append_assoc, List.drop_left]
  have hcount : m.length - m.length % 4 = 4 * k := by omega
  rw [length_block hm, block, ← List.singleton_append, ← memcpy_memcpy, List.length_singleton,
    encodeGroups_padded hsplit hbody]
  simp only [encodeWithPadding, if_neg hpos, padChar_eq, store_eq_memcpy dest]
  cases hfirst : memcpy dest 0 [(48 + tailCount m.length).toUInt8] with
  | error e => rfl
  | ok d₁ =>
      obtain ⟨hroom, hd₁⟩ := length_of_memcpy hfirst
      rw [List.length_singleton] at hroom
      have hloop := encodeUnsafe_eq k 1 d₁ (by omega) hbody (tail ++ rest)
      rw [← List.append_assoc, ← hsplit] at hloop
      simp only [ok_bind]
      rw [hdrop, hcount, hloop, Nat.zero_add, ← memcpy_memcpy, length_encodeGroups hbody]
      cases hwhole : memcpy d₁ 1 (encodeGroups body) with
      | error e => rfl
      | ok d₂ =>
          obtain ⟨hroom', hd₂⟩ := length_of_memcpy hwhole
          rw [length_encodeGroups hbody] at hroom'
          have hlast {g : Bytes} (hg : g.length = 4) : encodeUnsafe 4 d₂ (1 + 5 * k) g =
              (memcpy d₂ (1 + 5 * k) (encodeGroups g) >>= fun dest =>
                .ok (dest, 1 + 5 * k + 5)) := by
            have h := encodeUnsafe_eq 1 (1 + 5 * k) d₂ (by omega) hg []
            rw [List.append_nil] at h
            exact h
          simp only [ok_bind, tailCount]
          -- what is left over: nothing, or a group to be filled up
          rcases tail with - | ⟨x, - | ⟨y, - | ⟨z, - | ⟨v, more⟩⟩⟩⟩
          · have hcount₀ : 4 - ((m.length + 3) % 4 + 1) = 0 := by simp at htail; omega
            have hend : 1 + 5 * ((m.length + 3) / 4) = 1 + 5 * k := by simp at hlen; omega
            simp [← htail, hcount₀, hend, memcpy_nil (show 1 + 5 * k ≤ d₂.length by omega)]
          · have hcount₁ : 4 - ((m.length + 3) % 4 + 1) = 3 := by simp at htail; omega
            have hend : 1 + 5 * ((m.length + 3) / 4) = 1 + 5 * k + 5 := by simp at hlen; omega
            simpa [← htail, hcount₁, hend, load, store] using hlast (g := [x, 0, 0, 0]) rfl
          · have hcount₂ : 4 - ((m.length + 3) % 4 + 1) = 2 := by simp at htail; omega
            have hend : 1 + 5 * ((m.length + 3) / 4) = 1 + 5 * k + 5 := by simp at hlen; omega
            simpa [← htail, hcount₂, hend, load, store] using hlast (g := [x, y, 0, 0]) rfl
          · have hcount₃ : 4 - ((m.length + 3) % 4 + 1) = 1 := by simp at htail; omega
            have hend : 1 + 5 * ((m.length + 3) / 4) = 1 + 5 * k + 5 := by simp at hlen; omega
            simpa [← htail, hcount₃, hend, load, store] using hlast (g := [x, y, z, 0]) rfl
          · simp only [List.length_cons] at htail
            omega

/-! ## Decoding with padding -/

/-- The decoder reads the first character as this count if it is a digit from
    1 to 4. -/
theorem toSizeT_padCount {c : UInt8} :
    49 ≤ c ∧ c ≤ 52 → toSizeT (charToInt c - 48) = padCount c :=
  forall_byte (p := fun c => 49 ≤ c ∧ c ≤ 52 → toSizeT (charToInt c - 48) = padCount c)
    (by decide +kernel) c

/-- It asserts that the first character is such a digit. -/
theorem padCount_asserted (c : UInt8) :
    3 < toSizeT ((toSizeT (charToInt c - 48) : Int) - 1) ↔ ¬ (49 ≤ c ∧ c ≤ 52) :=
  forall_byte
    (p := fun c => 3 < toSizeT ((toSizeT (charToInt c - 48) : Int) - 1) ↔ ¬ (49 ≤ c ∧ c ≤ 52))
    (by decide +kernel) c

/-- The writes of the last group, from its end on. -/
theorem storeTail_eq {w : Bytes} (hw : w.length = 4) {t : Nat} (ht : 1 ≤ t ∧ t ≤ 4) (dest : Bytes)
    (dst : Nat) : storeTail t w dest dst = memcpy dest dst (w.take t) := by
  obtain ⟨a, b, c, d, rest, rfl⟩ := exists_four w (Nat.le_of_eq hw.symm)
  obtain rfl : rest = [] := by simpa using hw
  have hcases : t = 1 ∨ t = 2 ∨ t = 3 ∨ t = 4 := by omega
  rcases hcases with rfl | rfl | rfl | rfl
  · exact store_eq_memcpy dest dst a
  · rw [List.take, List.take, List.take, ← memcpy_store, ← store_eq_memcpy]
    rfl
  · rw [List.take, List.take, List.take, List.take, ← memcpy_store, ← memcpy_store,
      ← store_eq_memcpy, bind_assoc]
    rfl
  · rw [List.take, List.take, List.take, List.take, List.take, ← memcpy_store, ← memcpy_store,
      ← memcpy_store, ← store_eq_memcpy, bind_assoc, bind_assoc]
    rfl

/-- A body as the groups of the loop and the last one. -/
theorem exists_last {chars : Bytes} {k : Nat} (h : chars.length = 5 * (k + 1)) :
    ∃ body last, chars = body ++ last ∧ body.length = 5 * k ∧ last.length = 5 := by
  refine ⟨chars.take (5 * k), chars.drop (5 * k), (List.take_append_drop _ _).symm, ?_, ?_⟩
  · rw [List.length_take, h]
    omega
  · rw [List.length_drop, h]
    omega

theorem decodeGroups_single {g : Bytes} (h : g.length = 5) : decodeGroups g = decodeWord g := by
  rw [← List.append_nil g, decodeGroups_word h, decodeGroups_nil, List.append_nil, List.append_nil]

theorem decoded_eq {c : UInt8} {body last : Bytes} {k : Nat} (hbody : body.length = 5 * k)
    (hlast : last.length = 5) :
    decoded c (body ++ last) k = decodeGroups body ++ (decodeWord last).take (padCount c) := by
  rw [decoded, decodedLength, decodeGroups_append hbody, ← length_decodeGroups hbody,
    List.take_length_add_append, decodeGroups_single hlast]

/-- The test for a single group only spares a loop that would do nothing. -/
theorem decodeUnsafe_guarded {k : Nat} {body : Bytes} (hbody : body.length = 5 * k)
    (rest dest : Bytes) (f : Bytes × Nat → Except Fault (Bytes × Nat)) :
    (if 5 * k + 6 ≠ 6 then decodeUnsafe (5 * k : Nat) dest 0 (body ++ rest) >>= f
      else pure (dest, 0) >>= f) =
      ((if body.all readable = true then
        memcpy dest 0 (decodeGroups body) >>= fun dest => .ok (dest, 4 * k)
      else .error .outOfBounds) >>= f) := by
  have hloop := decodeUnsafe_eq k 0 dest (Nat.zero_le _) hbody rest
  rw [Nat.zero_add] at hloop
  by_cases hk : k = 0
  · subst hk
    rw [← hloop, if_neg (by omega)]
    congr 1
    exact (decodeUnsafe_zero _ _ _).symm
  · rw [if_pos (by omega), hloop]

/-- The last group goes through a buffer of its own. -/
theorem decodeUnsafe_last {last : Bytes} (hlast : last.length = 5) (rest : Bytes) :
    decodeUnsafe 5 [0, 0, 0, 0] 0 (last ++ rest) =
      if last.all readable = true then .ok (decodeWord last, 4) else .error .outOfBounds := by
  have h := decodeUnsafe_eq 1 0 [0, 0, 0, 0] (Nat.zero_le _) hlast rest
  have hfill : memcpy [0, 0, 0, 0] 0 (decodeWord last) = .ok (decodeWord last) := by
    rw [memcpy_zero (by rw [length_decodeWord]; rfl), length_decodeWord]
    simp
  rw [decodeGroups_single hlast, hfill] at h
  exact h

/-- The decoder writes the bytes of a block, or reads behind its table. -/
theorem decodeWithPadding_eq {b : Bytes} {c : UInt8} {chars : Bytes} {k : Nat}
    (hb : Padded b c chars k) (rest dest : Bytes) :
    decodeWithPadding (b ++ rest) dest b.length =
      if chars.all readable = true then
        memcpy dest 0 (decoded c chars k) >>= fun dest => .ok (dest, decodedLength c k)
      else .error .outOfBounds := by
  obtain ⟨body, last, rfl, hbody, hlast⟩ := exists_last hb.groups
  have hlen : b.length = 5 * k + 6 := by rw [hb.body, List.length_cons, hb.groups]; omega
  have hne : ¬ 5 * k + 6 = 0 := by omega
  have hassert : ¬ ¬ (5 * k + 6 = 0 ∨ (5 * k + 6 - 1) % 5 = 0) := by omega
  have hcount : toSizeT (charToInt c - 48) = padCount c := toSizeT_padCount hb.count
  have hpad : ¬ 3 < toSizeT ((padCount c : Int) - 1) := by
    rw [← hcount, padCount_asserted]
    exact fun h => h hb.count
  -- where the loop and the last group read
  have hload : load (b ++ rest) 0 = .ok c := by rw [hb.body]; rfl
  have htail : (b ++ rest).tail = body ++ (last ++ rest) := by rw [hb.body]; simp
  have hdrop : (b ++ rest).drop (5 * k + 6 - 5) = last ++ rest := by
    have h : b ++ rest = (c :: body) ++ (last ++ rest) := by rw [hb.body]; simp
    rw [h, List.drop_left' (by rw [List.length_cons, hbody]; omega)]
  have hdist : ((5 * k + 6 : Nat) : Int) - 6 = (5 * k : Nat) := by omega
  rw [hlen]
  simp only [decodeWithPadding, if_neg hne, if_neg hassert, hload, ok_bind, hcount, if_neg hpad,
    hdrop, htail, hdist, decodeUnsafe_last hlast]
  rw [decodeUnsafe_guarded hbody, decoded_eq hbody hlast, ← memcpy_memcpy, Nat.zero_add,
    length_decodeGroups hbody, List.all_append]
  by_cases hbr : body.all readable = true
  · by_cases hlr : last.all readable = true
    · simp only [hbr, hlr, Bool.and_self, if_true, bind_assoc, ok_bind,
        storeTail_eq (length_decodeWord last) (padCount_range hb.count), decodedLength]
      rfl
    · simp only [hbr, hlr, Bool.and_false, Bool.false_eq_true, if_true, if_false, bind_assoc,
        ok_bind, error_bind]
      cases hw : memcpy dest 0 (decodeGroups body) with
      | error f => rw [fault_of_memcpy hw, error_bind]
      | ok dest' => rfl
  · simp only [hbr, Bool.false_and, Bool.false_eq_true, if_false, error_bind]

/-- The asserts: whole groups behind a count. -/
theorem decodeWithPadding_assert {c : UInt8} {chars : Bytes}
    (h : ¬ (chars.length % 5 = 0 ∧ 49 ≤ c ∧ c ≤ 52)) (rest dest : Bytes) :
    decodeWithPadding (c :: chars ++ rest) dest (c :: chars).length = .error .assertion := by
  have hlen : ¬ (c :: chars).length = 0 := by simp
  have hload : load (c :: chars ++ rest) 0 = .ok c := rfl
  by_cases hmod : chars.length % 5 = 0
  · have hguard : ¬ ¬ ((c :: chars).length = 0 ∨ ((c :: chars).length - 1) % 5 = 0) :=
      fun hn => hn (.inr hmod)
    have hassert : 3 < toSizeT ((toSizeT (charToInt c - 48) : Int) - 1) := by
      rw [padCount_asserted]
      exact fun hc => h ⟨hmod, hc⟩
    simp only [decodeWithPadding, if_neg hguard, if_neg hlen, hload, ok_bind, if_pos hassert,
      throw_error, error_bind]
  · have hguard : ¬ ((c :: chars).length = 0 ∨ ((c :: chars).length - 1) % 5 = 0) :=
      fun hn => hn.elim hlen hmod
    simp only [decodeWithPadding, if_pos hguard, throw_error, error_bind]

/-- A loop whose end lies behind it runs out of its source. -/
theorem decodeUnsafe_behind {n : Int} (hn : n < 0) (dest : Bytes) (dst : Nat) (src : Bytes) :
    decodeUnsafe n dest dst src = .error .outOfBounds := by
  fun_induction decodeUnsafe n dest dst src with
  | case1 => omega
  | case2 n dest dst a b c d e src hne ih =>
      by_cases hframe : [a, b, c, d, e].all readable = true
      · rw [decodeFrame_eq _ _ hframe]
        cases hw : memcpy dest dst (decodeWord [a, b, c, d, e]) with
        | error f => rw [fault_of_memcpy hw, error_bind]
        | ok dest' => exact ih dest' (by omega)
      · rw [decodeFrame_outside _ _ hframe, error_bind]
  | case3 => omega
  | case4 => rfl

/-- A count with nothing behind it passes the asserts, and the loop then
    looks for an end that lies before its start. -/
theorem decodeWithPadding_single {c : UInt8} (h : 49 ≤ c ∧ c ≤ 52) (rest dest : Bytes) :
    decodeWithPadding (c :: rest) dest 1 = .error .outOfBounds := by
  have hload : load (c :: rest) 0 = .ok c := rfl
  have hassert : ¬ 3 < toSizeT ((toSizeT (charToInt c - 48) : Int) - 1) := by
    rw [padCount_asserted]
    exact fun hc => hc h
  have hloop : decodeUnsafe (((1 : Nat) : Int) - 6) dest 0 rest = .error .outOfBounds :=
    decodeUnsafe_behind (by decide) dest 0 rest
  have hne : ¬ (1 : Nat) = 0 := by decide
  have hne₆ : (1 : Nat) ≠ 6 := by decide
  simp only [decodeWithPadding, Nat.sub_self, Nat.zero_mod, or_true, not_true, if_false, if_neg hne,
    hload, ok_bind, if_neg hassert, if_pos hne₆, List.tail_cons, hloop, error_bind]

/-! ## Sizes -/

theorem roundUp (n : Nat) : n + (5 - n % 5) % 5 = 5 * ((n + 4) / 5) := by
  have hcases : n % 5 = 0 ∨ n % 5 = 1 ∨ n % 5 = 2 ∨ n % 5 = 3 ∨ n % 5 = 4 := by omega
  rcases hcases with h | h | h | h | h <;> omega

theorem groups_eq (n : Nat) : (n * 5 / 4 + 4) / 5 = (n + 3) / 4 := by
  have hcases : n % 4 = 0 ∨ n % 4 = 1 ∨ n % 4 = 2 ∨ n % 4 = 3 := by omega
  rcases hcases with h | h | h | h <;> omega

theorem encodeWithPaddingBound_ne_zero {n : Nat} (hn : n ≠ 0) :
    encodeWithPaddingBound n = (5 * ((encodeBound n + 4) / 5) + 1) % 2 ^ 64 := by
  rw [encodeWithPaddingBound, if_neg hn]
  dsimp only
  rw [roundUp]

/-- The bound is the length of the block as long as the multiplication does
    not wrap. -/
theorem encodeWithPaddingBound_eq {m : Bytes} (hm : m ≠ []) (h : m.length * 5 < 2 ^ 64) :
    encodeWithPaddingBound m.length = (block m).length := by
  have hpos : m.length ≠ 0 := fun h => hm (List.length_eq_zero_iff.mp h)
  rw [length_block hm, encodeWithPaddingBound_ne_zero hpos, encodeBound, Nat.mod_eq_of_lt h,
    groups_eq]
  omega

/-- Once it wraps, the bound is too small. -/
theorem encodeWithPaddingBound_lt {m : Bytes} (hm : m ≠ []) (h : ¬ m.length * 5 < 2 ^ 64) :
    encodeWithPaddingBound m.length < (block m).length := by
  have hpos : m.length ≠ 0 := fun h => hm (List.length_eq_zero_iff.mp h)
  have hwrapped : encodeBound m.length + 4 < m.length * 5 / 4 := by
    unfold encodeBound
    omega
  have hgroups := groups_eq m.length
  rw [length_block hm, encodeWithPaddingBound_ne_zero hpos]
  calc (5 * ((encodeBound m.length + 4) / 5) + 1) % 2 ^ 64
    _ ≤ 5 * ((encodeBound m.length + 4) / 5) + 1 := Nat.mod_le _ _
    _ < 1 + 5 * ((m.length + 3) / 4) := by omega

theorem decodeWithPaddingBound_padded {b : Bytes} {c : UInt8} {chars : Bytes} {k : Nat}
    (hb : Padded b c chars k) (rest : Bytes) :
    decodeWithPaddingBound (b ++ rest) b.length =
      .ok (if decodeBound (5 * (k + 1)) + padCount c < 4 then 0
        else decodeBound (5 * (k + 1)) + padCount c - 4) := by
  have hlen : b.length = 5 * (k + 1) + 1 := by rw [hb.body, List.length_cons, hb.groups]
  have hne : ¬ b.length = 0 := by omega
  have hload : load (b ++ rest) 0 = .ok c := by rw [hb.body]; rfl
  -- the leading digit is 1 to 4
  have hguard : ¬ (c - 48 = 0 ∨ 4 < c - 48) :=
    forall_byte (p := fun c => 49 ≤ c ∧ c ≤ 52 → ¬ (c - 48 = 0 ∨ 4 < c - 48)) (by decide +kernel) c
      hb.count
  simp only [decodeWithPaddingBound, if_neg hne, hload, ok_bind, if_neg hguard]
  rw [hlen, Nat.add_sub_cancel, ← padCount]
  by_cases hlt : decodeBound (5 * (k + 1)) + padCount c < 4
  · rw [if_pos hlt, if_pos hlt]
    rfl
  · rw [if_neg hlt, if_neg hlt]
    rfl

/-- The bound is the number of bytes the body stands for, and too small once
    the multiplication wraps. -/
theorem exists_decodeWithPaddingBound {b : Bytes} {c : UInt8} {chars : Bytes} {k : Nat}
    (hb : Padded b c chars k) (rest : Bytes) :
    ∃ bound, decodeWithPaddingBound (b ++ rest) b.length = .ok bound ∧ bound < 2 ^ 63 ∧
      (20 * (k + 1) < 2 ^ 64 → bound = decodedLength c k) ∧
      (¬ 20 * (k + 1) < 2 ^ 64 → bound < decodedLength c k) := by
  obtain ⟨h₁, h₄⟩ := padCount_range hb.count
  refine ⟨_, decodeWithPaddingBound_padded hb rest, ?_, ?_, ?_⟩
  · have hbound : decodeBound (5 * (k + 1)) < 2 ^ 62 := by
      unfold decodeBound
      omega
    split <;> omega
  · intro h
    have hbound : decodeBound (5 * (k + 1)) = 4 * (k + 1) := by
      unfold decodeBound
      omega
    unfold decodedLength
    split <;> omega
  · intro h
    have hbound : decodeBound (5 * (k + 1)) < 4 * (k + 1) := by
      unfold decodeBound
      omega
    unfold decodedLength
    split <;> omega

theorem encodeWithPaddingBound_small (n : Nat) : encodeWithPaddingBound n < 2 ^ 63 := by
  by_cases hn : n = 0
  · simp [encodeWithPaddingBound, hn]
  · have hbound : encodeBound n < 2 ^ 62 := by
      unfold encodeBound
      omega
    rw [encodeWithPaddingBound_ne_zero hn]
    calc (5 * ((encodeBound n + 4) / 5) + 1) % 2 ^ 64
      _ ≤ 5 * ((encodeBound n + 4) / 5) + 1 := Nat.mod_le _ _
      _ < 2 ^ 63 := by omega

/-! ## Blocks are bodies -/

theorem padCount_tailCount (n : Nat) : padCount (48 + tailCount n).toUInt8 = tailCount n := by
  rcases tailCount_cases n with h | h | h | h <;>
    · rw [h]
      rfl

theorem padded_block {m : Bytes} (hm : m ≠ []) :
    Padded (block m) (48 + tailCount m.length).toUInt8 (encodeGroups (padded m))
      ((m.length + 3) / 4 - 1) := by
  have hpos : 0 < m.length := List.length_pos_iff.mpr hm
  refine ⟨rfl, ?_, ?_⟩
  · rcases tailCount_cases m.length with h | h | h | h <;>
      · rw [h]
        decide
  · rw [length_encodeGroups (length_padded m hm)]
    omega

theorem decodedLength_block {m : Bytes} (hm : m ≠ []) :
    decodedLength (48 + tailCount m.length).toUInt8 ((m.length + 3) / 4 - 1) = m.length := by
  have hpos : 0 < m.length := List.length_pos_iff.mpr hm
  rw [decodedLength, padCount_tailCount, tailCount]
  omega

/-- Decoding a block gives the message back. -/
theorem decoded_block {m : Bytes} (hm : m ≠ []) :
    decoded (48 + tailCount m.length).toUInt8 (encodeGroups (padded m))
      ((m.length + 3) / 4 - 1) = m := by
  rw [decoded, decodedLength_block hm, decodeGroups_encodeGroups (length_padded m hm), padded,
    List.take_left]

theorem all_readable_block (m : Bytes) : (encodeGroups (padded m)).all readable = true := by
  rw [List.all_eq_true]
  exact fun c hc => readable_of_mem (encodeGroups_mem hc)

end Z85

end Webstore
