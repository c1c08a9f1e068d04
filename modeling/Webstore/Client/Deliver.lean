/-
  Webstore.Client.Deliver

  From `ws_post` to the output file of `ws_get`.  Nothing in a block says
  whether it holds compressed bytes, and the receiver goes by the first two;
  nor does it say how long the message was, and the receiver makes room for ten
  times what it got.  The two theorems say which messages arrive.
-/
import Webstore.Client.Transport

namespace Webstore

open Webstore.Libc

/-- How the response is cut into pieces. -/
structure Cut where
  pieces : Bytes → List Bytes
  flatten_pieces : ∀ b, (pieces b).flatten = b

/-- In one piece. -/
def Cut.whole : Cut := ⟨fun b => [b], fun b => by simp⟩

/-- `ws_post` sends a message, the server stores the string it got and returns
    it, and `ws_get -f` writes what it makes of it. -/
def transfer (sender receiver : Heap) (gComp : Bool) (lib : Miniz) (cut : Cut) (m : Bytes) :
    Except Fault (Option Bytes) := do
  let some z85block ← encodeMsg sender gComp lib m m.length | return none
  let r ← collect CurlResp.zero (cut.pieces (cString z85block))
  handlePage receiver lib true r

/-- Bytes that the receiver takes for compressed. -/
def Marked (p : Bytes) : Prop := 6 < p.length ∧ [0x78, 0x01] <+: p

instance (p : Bytes) : Decidable (Marked p) := inferInstanceAs (Decidable (_ ∧ _))

/-- What `inflate_msg` makes of the decoded bytes. -/
def inflated (lib : Miniz) (p : Bytes) : Option Bytes :=
  match lib.uncompress (10 * p.length % 2 ^ 64) p with
  | .ok out => if out = [] then none else some out
  | .error _ => none

/-- What is written for these decoded bytes. -/
def written (lib : Miniz) (p : Bytes) : Option Bytes := if Marked p then inflated lib p else some p

/-- Neither the encoder's nor the decoder's size formula wraps. -/
def SizesFit (n : Nat) : Prop := 20 * ((n + 3) / 4) < 2 ^ 64

instance (n : Nat) : Decidable (SizesFit n) := inferInstanceAs (Decidable (_ < _))

/-! ## The receiver -/

/-- `inflate_msg` gives back what the library makes of the stream, with a NUL behind
    it. -/
theorem inflateMsg_eq (lib : Miniz) (p rest : Bytes) :
    inflateMsg lib (p ++ rest) p.length =
      .ok ((inflated lib p).map fun out => (out ++ [0], out.length)) := by
  have hread : readBytes (p ++ rest) p.length = .ok p := by
    rw [readBytes_eq (by simp), List.take_left]
  have hzero : ¬ (0 : Nat) < 0 := Nat.lt_irrefl 0
  simp only [inflateMsg, mzaRestore, hread, ok_bind, if_neg hzero, inflated]
  cases hu : lib.uncompress (10 * p.length % 2 ^ 64) p with
  | error err => rfl
  | ok out =>
      have hfits : out.length ≤ (calloc (10 * p.length % 2 ^ 64)).length := by
        rw [length_calloc]
        exact lib.uncompress_le hu
      dsimp only
      rw [memcpy_zero hfits, ok_bind, pure_ok, ok_bind]
      dsimp only
      -- nothing restored is as good as an error
      by_cases hnil : out = []
      · subst hnil
        rfl
      · have hlen : ¬ out.length = 0 := fun h => hnil (List.length_eq_zero_iff.mp h)
        have hdata : memcpy (calloc (out.length + 1)) 0 out = .ok (out ++ [0]) := by
          have hsplit : calloc (out.length + 1) = [] ++ List.replicate out.length 0 ++ [0] := by
            rw [calloc, List.replicate_succ']
            rfl
          rw [hsplit]
          exact memcpy_append [] (List.replicate out.length 0) [0] out List.length_replicate
        rw [if_neg hlen, if_neg hnil, readBytes_eq (by simp), List.take_left, ok_bind, hdata,
          ok_bind]
        rfl

/-- The test of the first two bytes. -/
theorem looksPacked_eq (p rest : Bytes) :
    looksPacked (p ++ rest) p.length = .ok (decide (Marked p)) := by
  unfold looksPacked
  by_cases hlong : 6 < p.length
  -- more than six bytes, so that the first two are there
  · match p, hlong with
    | x :: y :: p, hlong =>
        have hload₀ : load (x :: y :: p ++ rest) 0 = .ok x := rfl
        have hload₁ : load (x :: y :: p ++ rest) 1 = .ok y := rfl
        rw [if_pos hlong, hload₀, hload₁, ok_bind, ok_bind, pure_ok]
        congr 1
        rw [Bool.eq_iff_iff, decide_eq_true_iff, Bool.and_eq_true, beq_iff_eq, beq_iff_eq, Marked,
          List.cons_prefix_cons, List.cons_prefix_cons]
        constructor
        · rintro ⟨rfl, rfl⟩
          exact ⟨hlong, rfl, rfl, List.nil_prefix⟩
        · rintro ⟨-, rfl, rfl, -⟩
          exact ⟨rfl, rfl⟩
  · have hno : ¬ Marked p := fun h => hlong h.1
    rw [if_neg hlong, decide_eq_false hno]
    rfl

/-- What `handle_page` writes once the page is decoded. -/
theorem handlePage_eq (heap : Heap) (lib : Miniz) {r : CurlResp} {p : Bytes}
    (h : decodeMsg heap r.page r.bytecount = .ok (some (p ++ [0], p.length))) :
    handlePage heap lib true r = .ok (written lib p) := by
  simp only [handlePage, h, ok_bind, looksPacked_eq, written, decide_eq_true_eq]
  -- what looks compressed is restored, and the rest is written as it is
  by_cases hmark : Marked p
  · rw [if_pos hmark, if_pos hmark, inflateMsg_eq, ok_bind]
    cases inflated lib p with
    | none => rfl
    | some out =>
        rw [Option.map_some]
        dsimp only
        rw [if_pos trivial, readBytes_eq (by simp), List.take_left]
        rfl
  · rw [if_neg hmark, if_neg hmark, pure_ok, ok_bind]
    dsimp only
    rw [if_pos trivial, readBytes_eq (by simp), List.take_left]
    rfl

/-! ## From end to end -/

/-- What arrives is what the receiver makes of the bytes that were sent. -/
theorem transfer_eq (sender receiver : Heap) (gComp : Bool) (lib : Miniz) (cut : Cut) {m : Bytes}
    (hm : m ≠ []) :
    transfer sender receiver gComp lib cut m =
      if SizesFit (payload gComp lib m).length then .ok (written lib (payload gComp lib m))
      else .error .outOfBounds := by
  have hp := payload_ne_nil gComp lib hm
  simp only [transfer, encodeMsg_eq sender gComp lib hm]
  generalize payload gComp lib m = p at hp ⊢
  have hpos : 0 < p.length := List.length_pos_iff.mpr hp
  by_cases hwrap : p.length * 5 < 2 ^ 64
  · have hstring : cString (Z85.block p ++ [0]) = Z85.block p :=
      cString_append_nul (Z85.nulFree_block p) []
    -- curl delivers a block that is not empty in one piece or more
    have hpieces : cut.pieces (Z85.block p) ≠ [] := by
      intro hnil
      have hflat := cut.flatten_pieces (Z85.block p)
      rw [hnil] at hflat
      have hlen := Z85.length_block hp
      rw [← hflat] at hlen
      simp at hlen
      omega
    rw [if_pos hwrap, ok_bind]
    dsimp only
    rw [hstring, collect_eq hpieces, cut.flatten_pieces, ok_bind]
    have hdecode : decodeMsg receiver (some (Z85.block p ++ [0])) (Z85.block p).length =
        if SizesFit p.length then .ok (some (p ++ [0], p.length)) else .error .outOfBounds :=
      decodeMsg_block receiver hp [0]
    by_cases hfit : SizesFit p.length
    · rw [if_pos hfit] at hdecode
      rw [if_pos hfit]
      exact handlePage_eq receiver lib hdecode
    · rw [if_neg hfit] at hdecode
      rw [if_neg hfit]
      simp only [handlePage, hdecode, error_bind]
  · -- a block that is too large to be encoded is too large to be decoded
    have hfit : ¬ SizesFit p.length := by
      unfold SizesFit
      omega
    rw [if_neg hwrap, if_neg hfit, error_bind]

/-- A message that is not empty comes from the library. -/
theorem inflated_eq_some {lib : Miniz} {p m : Bytes} (hm : m ≠ []) :
    inflated lib p = some m ↔ lib.uncompress (10 * p.length % 2 ^ 64) p = .ok m := by
  unfold inflated
  cases lib.uncompress (10 * p.length % 2 ^ 64) p with
  | error err => simp
  | ok out =>
      by_cases hnil : out = []
      · subst hnil
        simp [Ne.symm hm]
      · simp [hnil]

theorem transfer_eq_some {sender receiver : Heap} {gComp : Bool} {lib : Miniz} {cut : Cut}
    {m : Bytes} (hm : m ≠ []) :
    transfer sender receiver gComp lib cut m = .ok (some m) ↔
      SizesFit (payload gComp lib m).length ∧ written lib (payload gComp lib m) = some m := by
  rw [transfer_eq sender receiver gComp lib cut hm]
  by_cases hfit : SizesFit (payload gComp lib m).length <;> simp [hfit]

/-- A message that is sent as it is arrives if and only if the receiver does
    not take it for compressed, or it is its own decompression. -/
theorem raw_delivered_iff (sender receiver : Heap) (gComp : Bool) (lib : Miniz) (cut : Cut)
    {m : Bytes} (hm : m ≠ []) (hraw : SentRaw gComp lib m) :
    transfer sender receiver gComp lib cut m = .ok (some m) ↔
      SizesFit m.length ∧
        (m.length ≤ 6 ∨ ¬ [0x78, 0x01] <+: m ∨
          lib.uncompress (10 * m.length % 2 ^ 64) m = .ok m) := by
  rw [transfer_eq_some hm, payload_of_sentRaw hraw]
  refine and_congr_right fun _ => ?_
  unfold written
  by_cases hmark : Marked m
  · rw [if_pos hmark, inflated_eq_some hm]
    obtain ⟨hlong, hprefix⟩ := hmark
    constructor
    · exact fun h => .inr (.inr h)
    · rintro (h | h | h)
      · omega
      · exact absurd hprefix h
      · exact h
  · rw [if_neg hmark]
    refine iff_of_true rfl ?_
    by_cases hlong : 6 < m.length
    · exact .inr (.inl fun hprefix => hmark ⟨hlong, hprefix⟩)
    · exact .inl (Nat.le_of_not_lt hlong)

theorem raw_delivered_text :
    transfer Heap.blank Heap.blank false runLength Cut.whole (ascii "webstore") =
      .ok (some (ascii "webstore")) :=
  (raw_delivered_iff Heap.blank Heap.blank false runLength Cut.whole (by decide) (.inl rfl)).mpr
    ⟨by decide, .inr (.inl (by decide))⟩

/-- Seven bytes that look like the start of a zlib stream and are none. -/
def lookalike : Bytes := [0x78, 0x01, 0, 0, 0, 0, 0]

/-- They are sent as they are, and nothing is written. -/
theorem lookalike_lost : SentRaw false runLength lookalike ∧
    transfer Heap.blank Heap.blank false runLength Cut.whole lookalike = .ok none := by
  refine ⟨.inl rfl, ?_⟩
  rw [transfer_eq _ _ _ _ _ (by decide), payload_of_sentRaw (.inl rfl), if_pos (by decide)]
  decide

/-- `encode_msg` goes on with the compressed bytes. -/
structure SentCompressed (lib : Miniz) (m out : Bytes) : Prop where
  compressed : lib.compress (mzCompressBound m.length) m = .ok out
  nonempty : out ≠ []
  shorter : out.length < m.length

theorem payload_of_sentCompressed {lib : Miniz} {m out : Bytes} (h : SentCompressed lib m out) :
    payload true lib m = out := by
  simp only [payload, if_true, h.compressed]
  exact if_pos ⟨h.nonempty, h.shorter⟩

/-- A message that is sent compressed arrives if and only if it is at most ten
    times as long as its compressed form. -/
theorem compressed_delivered_iff (sender receiver : Heap) {lib : Miniz} (hlib : lib.Documented)
    (cut : Cut) {m out : Bytes} (hm : m ≠ []) (hsent : SentCompressed lib m out) :
    transfer sender receiver true lib cut m = .ok (some m) ↔
      SizesFit out.length ∧ m.length ≤ 10 * out.length % 2 ^ 64 := by
  rw [transfer_eq_some hm, payload_of_sentCompressed hsent]
  refine and_congr_right fun _ => ?_
  obtain ⟨hlong, hprefix⟩ := hlib.marker hsent.compressed
  have hmark : Marked out := ⟨by omega, hprefix⟩
  unfold written
  rw [if_pos hmark, inflated_eq_some hm]
  constructor
  · intro h
    by_contra hshort
    obtain ⟨err, herr⟩ := hlib.refuses hsent.compressed (Nat.lt_of_not_le hshort)
    rw [herr] at h
    cases h
  · exact fun h => hlib.restores hsent.compressed h

/-- A run that is more than ten times as long as its packed form is sent, and
    nothing is written. -/
theorem run_lost {n : Nat} (hlong : 120 ≤ n) (h : n + 1 < 2 ^ 64)
    (hcap : 12 ≤ mzCompressBound (n + 1)) :
    ∃ out, SentCompressed runLength (List.replicate (n + 1) 97) out ∧
      transfer Heap.blank Heap.blank true runLength Cut.whole (List.replicate (n + 1) 97) =
        .ok none := by
  -- the receiver makes room for ten times what it got, and no more
  have hlen := RunLength.length_pack_replicate n 97 h
  have hsent : SentCompressed runLength (List.replicate (n + 1) 97)
      (RunLength.pack (List.replicate (n + 1) 97)) := by
    refine ⟨RunLength.compress_replicate 97 h (by rwa [List.length_replicate]), ?_, ?_⟩
    · intro hnil
      rw [hnil] at hlen
      cases hlen
    · rw [hlen, List.length_replicate]
      omega
  have hmark : Marked (RunLength.pack (List.replicate (n + 1) 97)) :=
    ⟨by omega, (RunLength.pack_marked _).2⟩
  have hrefused : runLength.uncompress
      (10 * (RunLength.pack (List.replicate (n + 1) 97)).length % 2 ^ 64)
      (RunLength.pack (List.replicate (n + 1) 97)) = .error (-5) := by
    refine (RunLength.uncompress_pack _ _).trans (if_neg ?_)
    rw [hlen, List.length_replicate]
    omega
  refine ⟨_, hsent, ?_⟩
  rw [transfer_eq _ _ _ _ _ (by simp), payload_of_sentCompressed hsent, hlen, if_pos (by decide),
    written, if_pos hmark, inflated, hrefused]

theorem compressed_delivered_run :
    transfer Heap.blank Heap.blank true runLength Cut.whole (List.replicate (99 + 1) 97) =
      .ok (some (List.replicate (99 + 1) 97)) := by
  have hlen := RunLength.length_pack_replicate 99 97 (by decide)
  refine (compressed_delivered_iff Heap.blank Heap.blank runLength_documented Cut.whole (by simp)
    ⟨RunLength.compress_replicate 97 (by decide) (by decide), ?_, ?_⟩).mpr ?_
  · intro hnil
    rw [hnil] at hlen
    cases hlen
  · rw [hlen]
    decide
  · rw [hlen]
    decide

/-- A thousand times the same byte. -/
theorem long_run_lost :
    runLength.Documented ∧ ∃ out, SentCompressed runLength (List.replicate (999 + 1) 97) out ∧
      transfer Heap.blank Heap.blank true runLength Cut.whole (List.replicate (999 + 1) 97) ≠
        .ok (some (List.replicate (999 + 1) 97)) := by
  obtain ⟨out, hsent, hlost⟩ := run_lost (n := 999) (by decide) (by decide) (by decide)
  refine ⟨runLength_documented, out, hsent, ?_⟩
  rw [hlost]
  exact nofun

end Webstore
