/-
  Webstore.Client.Decode

  `decode_msg` on bodies that did not come from `encode_msg`: which of those
  that pass the decoder's own checks it decodes within its bounds, and which of
  those that the server accepts it survives.
-/
import Webstore.Client.Transport

namespace Webstore

open Webstore.Libc

/-! ## Bodies that pass the decoder's checks -/

/-- What `Z85_decode_with_padding` checks: not empty, whole groups behind the
    first character, and that a digit from 1 to 4. -/
structure Checked (b : Bytes) : Prop where
  nonempty : b ≠ []
  groups : (b.length - 1) % 5 = 0
  count : ∀ c, b.head? = some c → 49 ≤ c ∧ c ≤ 52

/-- `decode_msg` on this body, and nothing behind it, ends without a fault in a
    buffer of the allocated size that is filled to its end, and reports the
    bound as the number of bytes. -/
def SafelyDecoded (heap : Heap) (b : Bytes) : Prop :=
  ∃ bound dec, Z85.decodeWithPaddingBound b b.length = .ok bound ∧
    decodeMsg heap (some b) b.length = .ok (some (dec, bound)) ∧ dec.length = 1 + bound

/-- A checked body is a count alone, or whole groups behind one. -/
theorem Checked.cases {b : Bytes} (h : Checked b) :
    (∃ c, b = [c] ∧ 49 ≤ c ∧ c ≤ 52) ∨ ∃ c chars k, Z85.Padded b c chars k := by
  obtain ⟨c, chars, rfl⟩ := List.exists_cons_of_ne_nil h.nonempty
  have hcount := h.count c rfl
  have hgroups := h.groups
  rw [List.length_cons, Nat.add_sub_cancel] at hgroups
  by_cases hnil : chars = []
  · subst hnil
    exact .inl ⟨c, rfl, hcount⟩
  · have hpos : 0 < chars.length := List.length_pos_iff.mpr hnil
    exact .inr ⟨c, chars, chars.length / 5 - 1, rfl, hcount, by omega⟩

/-- A padded block has been checked by the decoder. -/
theorem Checked.of_padded {b : Bytes} {c : UInt8} {chars : Bytes} {k : Nat}
    (h : Z85.Padded b c chars k) : Checked b := by
  obtain ⟨rfl, hcount, hgroups⟩ := h
  refine ⟨List.cons_ne_nil _ _, ?_, ?_⟩
  · rw [List.length_cons, hgroups]
    omega
  · rintro c' ⟨⟩
    exact hcount

/-- The decoder is safe on a checked body if and only if there is more than
    the count, every character has an entry in the inverse table, and the
    bound does not wrap. -/
theorem decoder_safe_iff (heap : Heap) {b : Bytes} (hb : Checked b) :
    SafelyDecoded heap b ↔
      1 < b.length ∧ (∀ c ∈ b.tail, Z85.readable c = true) ∧ 4 * (b.length - 1) < 2 ^ 64 := by
  rcases hb.cases with ⟨c, rfl, hcount⟩ | ⟨c, chars, k, hpad⟩
  · -- the loop starts behind its end
    have hfault := decodeMsg_single heap hcount []
    refine iff_of_false ?_ (fun h => absurd h.1 (by simp))
    rintro ⟨bound, dec, -, hdec, -⟩
    rw [List.length_singleton, hfault] at hdec
    cases hdec
  · have hdecode := decodeMsg_padded heap hpad []
    rw [List.append_nil] at hdecode
    obtain ⟨bound, hbound, -, hfits, -⟩ := Z85.exists_decodeWithPaddingBound hpad []
    rw [List.append_nil] at hbound
    have hlen : b.length = 5 * (k + 1) + 1 := by rw [hpad.body, List.length_cons, hpad.groups]
    have htail : b.tail = chars := by rw [hpad.body]; rfl
    -- the bound on the length, said of the blocks
    have hcond : (1 < b.length ∧ (∀ c ∈ b.tail, Z85.readable c = true) ∧
        4 * (b.length - 1) < 2 ^ 64) ↔
        (chars.all Z85.readable = true ∧ 20 * (k + 1) < 2 ^ 64) := by
      rw [htail, hlen, List.all_eq_true]
      constructor
      · rintro ⟨-, hread, hsize⟩
        exact ⟨hread, by omega⟩
      · rintro ⟨hread, hsize⟩
        exact ⟨by omega, hread, by omega⟩
    rw [hcond]
    unfold SafelyDecoded
    rw [hdecode]
    by_cases hok : chars.all Z85.readable = true ∧ 20 * (k + 1) < 2 ^ 64
    · refine iff_of_true ⟨bound, Z85.decoded c chars k ++ [0], hbound, ?_, ?_⟩ hok
      · rw [if_pos hok, hfits hok.2]
      · rw [List.length_append, Z85.length_decoded hpad, hfits hok.2, Nat.add_comm]
        rfl
    · refine iff_of_false ?_ hok
      rintro ⟨bound', dec, -, hdec, -⟩
      rw [if_neg hok] at hdec
      cases hdec

theorem checked_hello : Checked (Z85.block (ascii "hello")) :=
  .of_padded (Z85.padded_block (by decide))

theorem decoder_safe_hello : SafelyDecoded Heap.blank (Z85.block (ascii "hello")) := by
  refine (decoder_safe_iff Heap.blank checked_hello).mpr ⟨?_, ?_, ?_⟩
  · rw [Z85.length_block (by decide)]
    decide
  · exact fun c hc => Z85.readable_of_mem (Z85.block_mem (List.mem_of_mem_tail hc))
  · rw [Z85.length_block (by decide)]
    decide

/-- A count alone, and a group of characters that have no entry. -/
theorem decoder_leaves_body :
    Checked (ascii "1") ∧ decodeMsg Heap.blank (some (ascii "1")) 1 = .error .outOfBounds ∧
      Checked [49, 31, 31, 31, 31, 31] ∧
      decodeMsg Heap.blank (some [49, 31, 31, 31, 31, 31]) 6 = .error .outOfBounds := by
  have hpad : Z85.Padded [49, 31, 31, 31, 31, 31] 49 [31, 31, 31, 31, 31] 0 :=
    ⟨rfl, by decide, rfl⟩
  refine ⟨⟨by decide, by decide, ?_⟩, decodeMsg_single Heap.blank (by decide) [], .of_padded hpad,
    ?_⟩
  · rintro c ⟨⟩
    decide
  · exact (decodeMsg_padded Heap.blank hpad []).trans (if_neg (by decide))

/-! ## Bodies that the server accepts -/

/-- What the server asks of a body before it stores it. -/
structure Accepted (limit : Nat) (b : Bytes) : Prop where
  long : 5 ≤ b.length
  digits : z85Validate b b.length = .ok 0
  within : b.length ≤ limit

/-- What the server accepts is spelled with digits of Z85. -/
theorem Accepted.mem {limit : Nat} {b : Bytes} (h : Accepted limit b) :
    ∀ c ∈ b, c ∈ z85Alphabet := by
  have hdigits := h.digits
  rw [z85Validate_eq] at hdigits
  by_contra hno
  rw [if_neg hno] at hdigits
  cases hdigits

theorem readable_of_mem_z85Alphabet {c : UInt8} (h : c ∈ z85Alphabet) : Z85.readable c = true := by
  have hall : ∀ c ∈ z85Alphabet, Z85.readable c = true := by decide +kernel
  exact hall c h

/-- `ws_get` comes through: however the response is cut, `decode_msg` on the
    collected page returns a message or NULL. -/
def Survives (heap : Heap) (b : Bytes) : Prop :=
  ∀ ptrs : List Bytes, ptrs.flatten = b →
    ∃ r, collect CurlResp.zero ptrs = .ok r ∧
      ∃ result, decodeMsg heap r.page r.bytecount = .ok result

/-- A body survives if the decoder gives it some answer. -/
theorem survives_iff (heap : Heap) {b : Bytes} (hb : b ≠ []) :
    Survives heap b ↔ ∃ result, decodeMsg heap (some (b ++ [0])) b.length = .ok result := by
  constructor
  · intro h
    obtain ⟨r, hr, result, hresult⟩ := h [b] (by simp)
    rw [collect_eq (by simp), List.flatten_singleton] at hr
    cases hr
    exact ⟨result, hresult⟩
  · rintro ⟨result, hresult⟩ ptrs rfl
    have hne : ptrs ≠ [] := by
      rintro rfl
      exact hb rfl
    exact ⟨_, collect_eq hne, result, hresult⟩

/-- The client survives an accepted body if and only if it is whole groups
    behind a digit from 1 to 4 and the bound does not wrap. -/
theorem accepted_survives_iff (heap : Heap) {limit : Nat} {b : Bytes} (hb : Accepted limit b) :
    Survives heap b ↔ Checked b ∧ 4 * (b.length - 1) < 2 ^ 64 := by
  have hlong := hb.long
  have hne : b ≠ [] := by
    rintro rfl
    simp at hlong
  rw [survives_iff heap hne]
  by_cases hcheck : Checked b
  · rcases hcheck.cases with ⟨c, rfl, -⟩ | ⟨c, chars, k, hpad⟩
    · simp at hlong
    · have hlen : b.length = 5 * (k + 1) + 1 := by rw [hpad.body, List.length_cons, hpad.groups]
      -- the server has validated the alphabet
      have hread : chars.all Z85.readable = true := by
        rw [List.all_eq_true]
        intro x hx
        apply readable_of_mem_z85Alphabet
        apply hb.mem
        rw [hpad.body]
        exact List.mem_cons_of_mem _ hx
      rw [decodeMsg_padded heap hpad]
      by_cases hsize : 20 * (k + 1) < 2 ^ 64
      · rw [if_pos ⟨hread, hsize⟩]
        exact iff_of_true ⟨_, rfl⟩ ⟨hcheck, by omega⟩
      · rw [if_neg fun h => hsize h.2]
        refine iff_of_false ?_ (fun h => hsize (by omega))
        rintro ⟨result, hresult⟩
        cases hresult
  -- not checked by the server: the asserts of the decoder fail
  · obtain ⟨c, chars, rfl⟩ := List.exists_cons_of_ne_nil hne
    have hbad : ¬ (chars.length % 5 = 0 ∧ 49 ≤ c ∧ c ≤ 52) := by
      rintro ⟨hgroups, hcount⟩
      refine hcheck ⟨hne, by simpa using hgroups, ?_⟩
      rintro c' ⟨⟩
      exact hcount
    rw [decodeMsg_assert heap hbad]
    refine iff_of_false ?_ (fun h => hcheck h.1)
    rintro ⟨result, hresult⟩
    cases hresult

/-- A body of whole groups survives. -/
theorem accepted_survives_hello : Survives Heap.blank (Z85.block (ascii "hello")) := by
  have hlen : (Z85.block (ascii "hello")).length = 11 := Z85.length_block (by decide)
  have haccepted : Accepted 11 (Z85.block (ascii "hello")) :=
    ⟨by omega, z85Validate_block _, by omega⟩
  exact (accepted_survives_iff Heap.blank haccepted).mpr ⟨checked_hello, by omega⟩

/-- Five digits are accepted and asserted away. -/
theorem accepted_asserted : Accepted 5 (ascii "00000") ∧
    decodeMsg Heap.blank (some (ascii "00000" ++ [0])) 5 = .error .assertion ∧
    ¬ Survives Heap.blank (ascii "00000") := by
  have hbad : ¬ ((ascii "0000").length % 5 = 0 ∧ 49 ≤ (48 : UInt8) ∧ (48 : UInt8) ≤ 52) := by
    decide
  have hfault : decodeMsg Heap.blank (some (ascii "00000" ++ [0])) 5 = .error .assertion :=
    decodeMsg_assert Heap.blank hbad [0]
  refine ⟨⟨by decide, ?_, by decide⟩, hfault, ?_⟩
  · decide +kernel
  · rw [survives_iff Heap.blank (by decide)]
    rintro ⟨result, hresult⟩
    have hlen : (ascii "00000").length = 5 := by decide
    rw [hlen, hfault] at hresult
    cases hresult

end Webstore
