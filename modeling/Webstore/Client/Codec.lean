/-
  Webstore.Client.Codec

  What the clients may expect of the compression library, and a small library
  that meets it: runs of one byte by their length, all else as it is.
-/
import Mathlib.Data.List.GetD
import Webstore.Client
import Webstore.Radix

namespace Webstore

open Webstore.Libc

/-- The documented behaviour of `mz_compress` and `mz_uncompress`. -/
structure Miniz.Documented (lib : Miniz) : Prop where
  marker : ∀ {cap m out}, lib.compress cap m = .ok out → 8 ≤ out.length ∧ [0x78, 0x01] <+: out
  restores : ∀ {cap m out c}, lib.compress cap m = .ok out → m.length ≤ c →
    lib.uncompress c out = .ok m
  refuses : ∀ {cap m out c}, lib.compress cap m = .ok out → c < m.length →
    ∃ err, lib.uncompress c out = .error err
  squeezes : ∃ n x out, lib.compress (mzCompressBound n) (List.replicate n x) = .ok out ∧
    10 * out.length < n

/-- What an inflated stream says about the message it was made of.  The library
    may refuse any stream, as it does with a capacity of 2^32 or more. -/
structure Miniz.Sound (lib : Miniz) : Prop where
  marker : ∀ {cap m out}, lib.compress cap m = .ok out → 8 ≤ out.length ∧ [0x78, 0x01] <+: out
  exact : ∀ {cap m out room back}, lib.compress cap m = .ok out →
    lib.uncompress room out = .ok back → back = m

/-- A library that restores or refuses does not restore anything else. -/
theorem Miniz.Documented.sound {lib : Miniz} (h : lib.Documented) : lib.Sound where
  marker := h.marker
  exact {cap m out room back} hout hback := by
    by_cases hroom : m.length ≤ room
    · rw [h.restores hout hroom] at hback
      exact (Except.ok.inj hback).symm
    · obtain ⟨err, herr⟩ := h.refuses hout (Nat.lt_of_not_le hroom)
      rw [herr] at hback
      cases hback

namespace RunLength

/-- The length of a run in eight bytes. -/
def lengthBytes (n : Nat) : Bytes := (Radix.digits 256 8 n).map Nat.toUInt8

/-- The length that eight bytes spell. -/
def ofLengthBytes (b : Bytes) : Nat := Radix.value 256 (b.map UInt8.toNat)

/-- The byte a message repeats, if it does. -/
def run? : Bytes → Option UInt8
  | [] => none
  | x :: m => if m.all (· == x) ∧ m.length + 1 < 2 ^ 64 then some x else none

def pack (m : Bytes) : Bytes :=
  match run? m with
  | some x => [0x78, 0x01, 0, x] ++ lengthBytes m.length
  | none => [0x78, 0x01, 1, 0, 0, 0, 0, 0] ++ m

def unpack : Bytes → Option (Nat × UInt8 ⊕ Bytes)
  | 0x78 :: 0x01 :: 0 :: x :: b => if b.length = 8 then some (.inl (ofLengthBytes b, x)) else none
  | 0x78 :: 0x01 :: 1 :: 0 :: 0 :: 0 :: 0 :: 0 :: m => some (.inr m)
  | _ => none

def compress (cap : Nat) (m : Bytes) : Except Int Bytes :=
  if (pack m).length ≤ cap then .ok (pack m) else .error (-5)

def uncompress (cap : Nat) (src : Bytes) : Except Int Bytes :=
  match unpack src with
  | some (.inl (n, x)) => if n ≤ cap then .ok (List.replicate n x) else .error (-5)
  | some (.inr m) => if m.length ≤ cap then .ok m else .error (-5)
  | none => .error (-3)

/-- What is compressed is packed, and fits. -/
theorem compress_ok {cap : Nat} {m out : Bytes} (h : compress cap m = .ok out) :
    out = pack m ∧ (pack m).length ≤ cap := by
  unfold compress at h
  split at h
  · rename_i hfits
    cases h
    exact ⟨rfl, hfits⟩
  · cases h

/-- What is unpacked fits, too. -/
theorem uncompress_le {cap : Nat} {src out : Bytes} (h : uncompress cap src = .ok out) :
    out.length ≤ cap := by
  unfold uncompress at h
  split at h
  · split at h
    · rename_i hfits
      cases h
      rwa [List.length_replicate]
    · cases h
  · split at h
    · rename_i hfits
      cases h
      exact hfits
    · cases h
  · cases h

end RunLength

/-- The library that packs runs. -/
def runLength : Miniz where
  compress := RunLength.compress
  uncompress := RunLength.uncompress
  compress_le h := by
    obtain ⟨rfl, hfits⟩ := RunLength.compress_ok h
    exact hfits
  uncompress_le := RunLength.uncompress_le

namespace RunLength

/-- A run is one byte, repeated. -/
theorem run?_eq_some {m : Bytes} {x : UInt8} (h : run? m = some x) :
    m = List.replicate m.length x ∧ m.length < 2 ^ 64 := by
  cases m with
  | nil => cases h
  | cons y m =>
      simp only [run?, Option.ite_none_right_eq_some, Option.some.injEq] at h
      obtain ⟨⟨hall, hlen⟩, rfl⟩ := h
      refine ⟨?_, hlen⟩
      rw [List.length_cons, List.replicate_succ]
      congr 1
      refine List.eq_replicate_of_mem fun c hc => ?_
      simpa using List.all_eq_true.mp hall c hc

/-- The digits of a length are bytes. -/
theorem toNat_toUInt8_digits (n : Nat) :
    ((Radix.digits 256 8 n).map Nat.toUInt8).map UInt8.toNat = Radix.digits 256 8 n := by
  rw [List.map_map]
  conv_rhs => rw [← List.map_id (Radix.digits 256 8 n)]
  apply List.map_congr_left
  intro d hd
  have hlt := Radix.lt_of_mem_digits (by decide) hd
  exact Nat.mod_eq_of_lt hlt

theorem ofLengthBytes_lengthBytes {n : Nat} (h : n < 2 ^ 64) :
    ofLengthBytes (lengthBytes n) = n := by
  rw [ofLengthBytes, lengthBytes, toNat_toUInt8_digits]
  exact Radix.value_digits h

@[simp] theorem length_lengthBytes (n : Nat) : (lengthBytes n).length = 8 := by
  simp [lengthBytes]

/-- Unpacking finds what was packed: a message of this length. -/
theorem uncompress_pack (c : Nat) (m : Bytes) :
    uncompress c (pack m) = if m.length ≤ c then .ok m else .error (-5) := by
  cases hrun : run? m with
  | some x =>
      obtain ⟨hrep, hlen⟩ := run?_eq_some hrun
      have hunpack : unpack (pack m) = some (.inl (m.length, x)) := by
        simp only [pack, hrun, List.cons_append, List.nil_append, unpack, length_lengthBytes,
          if_true, ofLengthBytes_lengthBytes hlen]
      simp only [uncompress, hunpack, ← hrep]
  | none =>
      have hunpack : unpack (pack m) = some (.inr m) := by
        simp only [pack, hrun, List.cons_append, List.nil_append, unpack]
      simp only [uncompress, hunpack]

theorem pack_marked (m : Bytes) : 8 ≤ (pack m).length ∧ [0x78, 0x01] <+: pack m := by
  unfold pack
  split
  · exact ⟨by simp, ⟨_, rfl⟩⟩
  · exact ⟨by simp, ⟨_, rfl⟩⟩

/-- A run takes twelve bytes, whatever its length. -/
theorem pack_replicate (n : Nat) (x : UInt8) (h : n + 1 < 2 ^ 64) :
    pack (List.replicate (n + 1) x) = [0x78, 0x01, 0, x] ++ lengthBytes (n + 1) := by
  have hrun : run? (List.replicate (n + 1) x) = some x := by
    rw [List.replicate_succ, run?, if_pos]
    refine ⟨?_, by rwa [List.length_replicate]⟩
    rw [List.all_eq_true]
    intro c hc
    rw [List.eq_of_mem_replicate hc]
    exact beq_self_eq_true x
  simp only [pack, hrun, List.length_replicate]

theorem length_pack_replicate (n : Nat) (x : UInt8) (h : n + 1 < 2 ^ 64) :
    (pack (List.replicate (n + 1) x)).length = 12 := by
  rw [pack_replicate n x h, List.length_append, length_lengthBytes]
  rfl

theorem compress_replicate {n cap : Nat} (x : UInt8) (h : n + 1 < 2 ^ 64) (hcap : 12 ≤ cap) :
    compress cap (List.replicate (n + 1) x) = .ok (pack (List.replicate (n + 1) x)) :=
  if_pos (by rwa [length_pack_replicate n x h])

/-- A long run becomes more than ten times shorter. -/
theorem squeezes {n : Nat} (hlong : 120 ≤ n) (h : n + 1 < 2 ^ 64)
    (hcap : 12 ≤ mzCompressBound (n + 1)) :
    ∃ n x out, runLength.compress (mzCompressBound n) (List.replicate n x) = .ok out ∧
      10 * out.length < n := by
  refine ⟨n + 1, 97, pack (List.replicate (n + 1) 97), compress_replicate 97 h hcap, ?_⟩
  rw [length_pack_replicate n 97 h]
  omega

end RunLength

/-- Packing is a codec as the program expects one. -/
theorem runLength_documented : runLength.Documented where
  marker h := by
    obtain ⟨rfl, -⟩ := RunLength.compress_ok h
    exact RunLength.pack_marked _
  restores h hle := by
    obtain ⟨rfl, -⟩ := RunLength.compress_ok h
    exact (RunLength.uncompress_pack _ _).trans (if_pos hle)
  refuses h hlt := by
    obtain ⟨rfl, -⟩ := RunLength.compress_ok h
    exact ⟨_, (RunLength.uncompress_pack _ _).trans (if_neg (Nat.not_le_of_lt hlt))⟩
  squeezes := RunLength.squeezes (n := 199) (by decide) (by decide) (by decide)

end Webstore
