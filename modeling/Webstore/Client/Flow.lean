/-
  Webstore.Client.Flow

  What the functions of the clients come to: `encode_msg` makes the block of
  the bytes it chose, `save_response` puts the pieces of a response together,
  and `decode_msg` gives back what a body stands for.  Each faults exactly
  where a size formula wraps or a table is left.
-/
import Webstore.Client
import Webstore.Z85.Refine

namespace Webstore

open Webstore.Libc

/-! ## ws_post -/

/-- The bytes `encode_msg` puts into the block: the compressed message if it
    is not empty and shorter, and the message as it is otherwise. -/
def payload (gComp : Bool) (lib : Miniz) (m : Bytes) : Bytes :=
  if gComp then
    match lib.compress (mzCompressBound m.length) m with
    | .ok out => if out ≠ [] ∧ out.length < m.length then out else m
    | .error _ => m
  else m

/-- `mza_squash` keeps to the bound that it has room for. -/
theorem mzaSquash_eq (lib : Miniz) (m : Bytes) :
    mzaSquash lib m m.length =
      .ok (match lib.compress (mzCompressBound m.length) m with
        | .ok out =>
            ⟨none, 0, some (out ++ (calloc (mzCompressBound m.length)).drop out.length),
              out.length, 0⟩
        | .error err => ⟨none, 0, none, 0, err⟩) := by
  simp only [mzaSquash, readBytes_eq (Nat.le_refl m.length), ok_bind, List.take_length]
  cases hc : lib.compress (mzCompressBound m.length) m with
  | error err => rfl
  | ok out =>
      have hfits : out.length ≤ (calloc (mzCompressBound m.length)).length := by
        rw [length_calloc]
        exact lib.compress_le hc
      dsimp only
      rw [memcpy_zero hfits]
      rfl

/-- The bytes that are encoded, and how many of them. -/
theorem choosePayload_eq (gComp : Bool) (lib : Miniz) (m : Bytes) :
    ∃ rest, choosePayload gComp lib m m.length =
      .ok (payload gComp lib m ++ rest, (payload gComp lib m).length) := by
  cases gComp with
  | false => exact ⟨[], by simp [choosePayload, payload]⟩
  | true =>
      simp only [choosePayload, Bool.not_true, Bool.false_eq_true, if_false, mzaSquash_eq, ok_bind,
        payload, if_true]
      cases lib.compress (mzCompressBound m.length) m with
      | error err => exact ⟨[], by simp⟩
      | ok out =>
          -- what is sent is the squashed message, if it got smaller
          by_cases h : out ≠ [] ∧ out.length < m.length
          · refine ⟨(calloc (mzCompressBound m.length)).drop out.length, ?_⟩
            have h' : out.length ≠ 0 ∧ out.length < m.length :=
              ⟨fun h₀ => h.1 (List.length_eq_zero_iff.mp h₀), h.2⟩
            dsimp only
            rw [if_pos h, if_pos h']
            rfl
          · refine ⟨[], ?_⟩
            have h' : ¬ (out.length ≠ 0 ∧ out.length < m.length) :=
              fun h' => h ⟨fun h₀ => h'.1 (by rw [h₀]; rfl), h'.2⟩
            dsimp only
            rw [if_neg h, if_neg h', List.append_nil]
            rfl

/-- Something is sent for a message that is not empty. -/
theorem payload_ne_nil (gComp : Bool) (lib : Miniz) {m : Bytes} (hm : m ≠ []) :
    payload gComp lib m ≠ [] := by
  unfold payload
  split
  · split
    · split
      · rename_i h
        exact h.1
      · exact hm
    · exact hm
  · exact hm

/-- `encode_msg` returns the block with its terminator, and nothing else in
    its buffer, unless the size of the buffer wraps. -/
theorem encodeMsg_eq (heap : Heap) (gComp : Bool) (lib : Miniz) {m : Bytes} (hm : m ≠ []) :
    encodeMsg heap gComp lib m m.length =
      if (payload gComp lib m).length * 5 < 2 ^ 64 then
        .ok (some (Z85.block (payload gComp lib m) ++ [0]))
      else .error .outOfBounds := by
  obtain ⟨rest, hchoose⟩ := choosePayload_eq gComp lib m
  have hp := payload_ne_nil gComp lib hm
  generalize payload gComp lib m = p at hchoose hp ⊢
  have hsmall := Z85.encodeWithPaddingBound_small p.length
  have hsize : (1 + Z85.encodeWithPaddingBound p.length) % 2 ^ 64 =
      1 + Z85.encodeWithPaddingBound p.length := Nat.mod_eq_of_lt (by omega)
  have hpos : ¬ (Z85.block p).length = 0 := by rw [Z85.length_block hp]; omega
  simp only [encodeMsg, hchoose, ok_bind, hsize, Z85.encodeWithPadding_eq hp, bind_assoc,
    if_neg hpos]
  by_cases hwrap : p.length * 5 < 2 ^ 64
  · have hbound := Z85.encodeWithPaddingBound_eq hp hwrap
    have hlen : (heap.malloc (1 + Z85.encodeWithPaddingBound p.length)).length =
        1 + (Z85.block p).length := by rw [Heap.length_malloc, hbound]
    obtain ⟨x, hx⟩ : ∃ x,
        (heap.malloc (1 + Z85.encodeWithPaddingBound p.length)).drop (Z85.block p).length =
          [x] := by
      rw [← List.length_eq_one_iff, List.length_drop, hlen]
      omega
    rw [if_pos hwrap, memcpy_zero (by omega), hx, ok_bind, store_eq (by simp), ok_bind,
      List.set_append_right _ _ (Nat.le_refl _), Nat.sub_self]
    rfl
  · have hbound := Z85.encodeWithPaddingBound_lt hp hwrap
    rw [if_neg hwrap]
    cases hw : memcpy (heap.malloc (1 + Z85.encodeWithPaddingBound p.length)) 0 (Z85.block p) with
    | error f => rw [fault_of_memcpy hw, error_bind]
    | ok dest =>
        -- there is room for the block at most, and none for the terminator
        obtain ⟨-, hlen⟩ := length_of_memcpy hw
        rw [Heap.length_malloc] at hlen
        have hfull : ¬ (Z85.block p).length < dest.length := by omega
        rw [ok_bind, store, if_neg hfull, error_bind]

/-! ## Responses -/

/-- One more piece of the response. -/
theorem saveResponse_append (p ptr : Bytes) :
    saveResponse ptr ⟨p.length, some (p ++ [0])⟩ =
      .ok ⟨(p ++ ptr).length, some (p ++ ptr ++ [0])⟩ := by
  have hsub : p.length + ptr.length + 1 - (p ++ [0]).length = ptr.length := by
    rw [List.length_append, List.length_singleton]
    omega
  have hshift : [0] ++ List.replicate ptr.length (0 : UInt8) =
      List.replicate ptr.length 0 ++ [0] := by
    rw [← List.replicate_succ']
    rfl
  -- the block grows by the new piece, the NUL of before with it
  have hroom : realloc (p ++ [0]) (p.length + ptr.length + 1) =
      p ++ List.replicate ptr.length 0 ++ [0] := by
    rw [realloc, List.take_of_length_le (by simp), hsub, List.append_assoc, hshift,
      List.append_assoc]
  simp only [saveResponse, Option.getD_some]
  rw [hroom, memcpy_append p (List.replicate ptr.length 0) [0] ptr List.length_replicate, ok_bind,
    store_eq (by simp), ← List.length_append, List.set_append_right _ _ (Nat.le_refl _),
    Nat.sub_self]
  rfl

/-- The first piece is all there is. -/
theorem saveResponse_zero (ptr : Bytes) :
    saveResponse ptr CurlResp.zero = .ok ⟨ptr.length, some (ptr ++ [0])⟩ := by
  have hcopy := memcpy_append [] (List.replicate ptr.length 0) [0] ptr List.length_replicate
  have hroom : realloc [] (ptr.length + 1) = [] ++ List.replicate ptr.length 0 ++ [0] := by
    rw [realloc, List.take_nil, List.length_nil, Nat.sub_zero, List.replicate_succ']
    rfl
  simp only [saveResponse, CurlResp.zero, Option.getD_none, Nat.zero_add]
  rw [List.length_nil] at hcopy
  rw [hroom, hcopy, ok_bind, store_eq (by simp), List.nil_append,
    List.set_append_right _ _ (Nat.le_refl _), Nat.sub_self]
  rfl

/-- Pieces are put behind what has come already. -/
theorem collect_append (p : Bytes) (ptrs : List Bytes) :
    collect ⟨p.length, some (p ++ [0])⟩ ptrs =
      .ok ⟨(p ++ ptrs.flatten).length, some (p ++ ptrs.flatten ++ [0])⟩ := by
  induction ptrs generalizing p with
  | nil => simp [collect]
  | cons ptr ptrs ih =>
      rw [collect, saveResponse_append, ok_bind, ih, List.flatten_cons, List.append_assoc]

/-- However the response is cut, its bytes are collected, with a terminator. -/
theorem collect_eq {ptrs : List Bytes} (h : ptrs ≠ []) :
    collect CurlResp.zero ptrs = .ok ⟨ptrs.flatten.length, some (ptrs.flatten ++ [0])⟩ := by
  obtain ⟨ptr, ptrs, rfl⟩ := List.exists_cons_of_ne_nil h
  rw [collect, saveResponse_zero, ok_bind, collect_append, List.flatten_cons]

/-! ## ws_get -/

/-- `decode_msg` on a body that is whole groups behind a count. -/
theorem decodeMsg_padded (heap : Heap) {b : Bytes} {c : UInt8} {chars : Bytes} {k : Nat}
    (hb : Z85.Padded b c chars k) (rest : Bytes) :
    decodeMsg heap (some (b ++ rest)) b.length =
      if chars.all Z85.readable = true ∧ 20 * (k + 1) < 2 ^ 64 then
        .ok (some (Z85.decoded c chars k ++ [0], Z85.decodedLength c k))
      else .error .outOfBounds := by
  obtain ⟨bound, hbound, hsmall, hfits, hwraps⟩ := Z85.exists_decodeWithPaddingBound hb rest
  have hsize : (1 + bound) % 2 ^ 64 = 1 + bound := Nat.mod_eq_of_lt (by omega)
  have hne : ¬ Z85.decodedLength c k = 0 := Nat.ne_of_gt (Z85.decodedLength_pos hb)
  have hlen := Z85.length_decoded hb
  simp only [decodeMsg, hbound, ok_bind, hsize, Z85.decodeWithPadding_eq hb]
  by_cases hread : chars.all Z85.readable = true
  · by_cases hwrap : 20 * (k + 1) < 2 ^ 64
    · have hroom : (heap.malloc (1 + bound)).length = 1 + (Z85.decoded c chars k).length := by
        rw [Heap.length_malloc, hlen, hfits hwrap]
      obtain ⟨x, hx⟩ : ∃ x,
          (heap.malloc (1 + bound)).drop (Z85.decoded c chars k).length = [x] := by
        rw [← List.length_eq_one_iff, List.length_drop, hroom]
        omega
      rw [if_pos hread, if_pos ⟨hread, hwrap⟩, memcpy_zero (by omega), hx, ok_bind, ok_bind,
        if_neg hne, ← hlen, store_eq (by simp), ok_bind,
        List.set_append_right _ _ (Nat.le_refl _), Nat.sub_self]
      rfl
    · have hcond : ¬ (chars.all Z85.readable = true ∧ 20 * (k + 1) < 2 ^ 64) := fun h => hwrap h.2
      rw [if_pos hread, if_neg hcond]
      cases hw : memcpy (heap.malloc (1 + bound)) 0 (Z85.decoded c chars k) with
      | error f => rw [fault_of_memcpy hw, error_bind, error_bind]
      | ok dest =>
          -- there is room for the message at most, and none for the terminator
          obtain ⟨-, hdest⟩ := length_of_memcpy hw
          rw [Heap.length_malloc] at hdest
          have hbig := hwraps hwrap
          have hfull : ¬ Z85.decodedLength c k < dest.length := by omega
          rw [ok_bind, ok_bind, if_neg hne, store, if_neg hfull, error_bind]
  · have hcond : ¬ (chars.all Z85.readable = true ∧ 20 * (k + 1) < 2 ^ 64) := fun h => hread h.1
    rw [if_neg hread, if_neg hcond, error_bind]

theorem decodeWithPaddingBound_ok {b : Bytes} (h : b ≠ []) (len : Nat) :
    ∃ bound, Z85.decodeWithPaddingBound b len = .ok bound := by
  obtain ⟨c, chars, rfl⟩ := List.exists_cons_of_ne_nil h
  have hload : load (c :: chars) 0 = .ok c := rfl
  simp only [Z85.decodeWithPaddingBound, hload, ok_bind]
  split_ifs <;> exact ⟨_, rfl⟩

/-- Any other body that is not empty is asserted away, -/
theorem decodeMsg_assert (heap : Heap) {c : UInt8} {chars : Bytes}
    (h : ¬ (chars.length % 5 = 0 ∧ 49 ≤ c ∧ c ≤ 52)) (rest : Bytes) :
    decodeMsg heap (some (c :: chars ++ rest)) (c :: chars).length = .error .assertion := by
  obtain ⟨bound, hbound⟩ := decodeWithPaddingBound_ok (List.cons_ne_nil c (chars ++ rest))
    (c :: chars).length
  rw [← List.cons_append] at hbound
  simp only [decodeMsg, hbound, ok_bind, Z85.decodeWithPadding_assert h, error_bind]

/-- unless it is a count and nothing else. -/
theorem decodeMsg_single (heap : Heap) {c : UInt8} (h : 49 ≤ c ∧ c ≤ 52) (rest : Bytes) :
    decodeMsg heap (some (c :: rest)) 1 = .error .outOfBounds := by
  obtain ⟨bound, hbound⟩ := decodeWithPaddingBound_ok (List.cons_ne_nil c rest) 1
  simp only [decodeMsg, hbound, ok_bind, Z85.decodeWithPadding_single h, error_bind]

/-- `decode_msg` on a block. -/
theorem decodeMsg_block (heap : Heap) {m : Bytes} (hm : m ≠ []) (rest : Bytes) :
    decodeMsg heap (some (Z85.block m ++ rest)) (Z85.block m).length =
      if 20 * ((m.length + 3) / 4) < 2 ^ 64 then .ok (some (m ++ [0], m.length))
      else .error .outOfBounds := by
  have hpos : 0 < m.length := List.length_pos_iff.mpr hm
  have hgroups : (m.length + 3) / 4 - 1 + 1 = (m.length + 3) / 4 := by omega
  rw [decodeMsg_padded heap (Z85.padded_block hm), Z85.decoded_block hm, Z85.decodedLength_block hm,
    hgroups]
  simp only [Z85.all_readable_block, true_and]

end Webstore
