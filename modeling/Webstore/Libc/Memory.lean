/-
  Webstore.Libc.Memory

  Fresh memory and the algebra of copies: neighbouring writes, in either
  order, are one copy, and they fault exactly when that copy does.
-/
import Webstore.Libc

namespace Webstore

namespace Libc

/-- What `malloc` hands out: room for as many bytes as asked for, with
    whatever they happen to hold. -/
structure Heap where
  malloc : Nat → Bytes
  length_malloc : ∀ n, (malloc n).length = n

attribute [simp] Heap.length_malloc

/-- A heap that is blank throughout. -/
def Heap.blank : Heap := ⟨fun n => List.replicate n 0, fun _ => List.length_replicate⟩

/-- `calloc(1, n)`. -/
def calloc (n : Nat) : Bytes := List.replicate n 0

@[simp] theorem length_calloc (n : Nat) : (calloc n).length = n := List.length_replicate

/-! ## Copies -/

theorem memcpy_of_fits {dst src : Bytes} {i : Nat} (h : i + src.length ≤ dst.length) :
    memcpy dst i src = .ok (dst.take i ++ src ++ dst.drop (i + src.length)) := if_pos h

theorem memcpy_of_not_fits {dst src : Bytes} {i : Nat} (h : ¬ i + src.length ≤ dst.length) :
    memcpy dst i src = .error .outOfBounds := if_neg h

/-- A copy onto the middle part of a buffer. -/
theorem memcpy_append (p q r src : Bytes) (h : q.length = src.length) :
    memcpy (p ++ q ++ r) p.length src = .ok (p ++ src ++ r) := by
  have hfits : p.length + src.length ≤ (p ++ q ++ r).length := by
    simp only [List.length_append]
    omega
  rw [memcpy_of_fits hfits, ← h, ← List.length_append, List.drop_left, List.append_assoc p q r,
    List.take_left]

/-- The part of a buffer that a copy goes to. -/
theorem exists_split {dst : Bytes} {i n : Nat} (h : i + n ≤ dst.length) :
    ∃ p q r, dst = p ++ q ++ r ∧ p.length = i ∧ q.length = n := by
  refine ⟨dst.take i, (dst.drop i).take n, (dst.drop i).drop n, ?_, ?_, ?_⟩
  · rw [List.append_assoc, List.take_append_drop, List.take_append_drop]
  · rw [List.length_take]
    omega
  · rw [List.length_take, List.length_drop]
    omega

/-- Filling a buffer from its start. -/
theorem memcpy_zero {dst src : Bytes} (h : src.length ≤ dst.length) :
    memcpy dst 0 src = .ok (src ++ dst.drop src.length) := by
  rw [memcpy_of_fits (by omega)]
  simp

/-- A copy that succeeds was within its destination and does not change its size. -/
theorem length_of_memcpy {dst src out : Bytes} {i : Nat} (h : memcpy dst i src = .ok out) :
    i + src.length ≤ dst.length ∧ out.length = dst.length := by
  by_cases hfits : i + src.length ≤ dst.length
  · rw [memcpy_of_fits hfits] at h
    cases h
    refine ⟨hfits, ?_⟩
    simp only [List.length_append, List.length_take, List.length_drop]
    omega
  · rw [memcpy_of_not_fits hfits] at h
    cases h

theorem fault_of_memcpy {dst src : Bytes} {i : Nat} {f : Fault} (h : memcpy dst i src = .error f) :
    f = .outOfBounds := by
  unfold memcpy at h
  split at h <;> cases h
  rfl

theorem memcpy_nil {dst : Bytes} {i : Nat} (h : i ≤ dst.length) : memcpy dst i [] = .ok dst := by
  rw [memcpy_of_fits (by simpa using h)]
  simp

/-- A write of one byte is a copy of one byte. -/
theorem store_eq_memcpy (dst : Bytes) (i : Nat) (c : UInt8) : store dst i c = memcpy dst i [c] := by
  by_cases h : i < dst.length
  · have hfits : i + [c].length ≤ dst.length := h
    rw [store_eq h, memcpy_of_fits hfits, List.set_eq_take_append_cons_drop, if_pos h]
    simp
  · have hfits : ¬ i + [c].length ≤ dst.length := h
    rw [memcpy_of_not_fits hfits]
    exact if_neg h

/-- A copy and then one right after it. -/
theorem memcpy_memcpy (dst src₁ src₂ : Bytes) (i : Nat) :
    (memcpy dst i src₁ >>= fun dst => memcpy dst (i + src₁.length) src₂) =
      memcpy dst i (src₁ ++ src₂) := by
  by_cases h₁ : i + src₁.length ≤ dst.length
  · obtain ⟨p, q, r, rfl, rfl, hq⟩ := exists_split h₁
    rw [memcpy_append p q r src₁ hq, ok_bind]
    -- the buffer before, under and behind the first copy; the second one goes
    -- behind it
    by_cases h₂ : src₂.length ≤ r.length
    · obtain ⟨s, t, u, rfl, hs, ht⟩ := exists_split (i := 0) (by omega : 0 + src₂.length ≤ r.length)
      have hnil : s = [] := List.length_eq_zero_iff.mp hs
      subst hnil
      have hsecond := memcpy_append (p ++ src₁) t u src₂ ht
      have hboth := memcpy_append p (q ++ t) u (src₁ ++ src₂) (by simp [hq, ht])
      simp only [List.append_assoc, List.nil_append, List.length_append] at hsecond hboth ⊢
      rw [hsecond, hboth]
    · rw [memcpy_of_not_fits, memcpy_of_not_fits] <;>
        · simp only [List.length_append]
          omega
  · rw [memcpy_of_not_fits h₁, memcpy_of_not_fits]
    · rfl
    · simp only [List.length_append]
      omega

/-- A copy and then a write right before it. -/
theorem memcpy_store (dst src : Bytes) (i : Nat) (c : UInt8) :
    (memcpy dst (i + 1) src >>= fun dst => store dst i c) = memcpy dst i (c :: src) := by
  by_cases h : i + 1 + src.length ≤ dst.length
  · obtain ⟨p, q, r, rfl, hp, hq⟩ := exists_split h
    -- `x` is the byte right before the copy
    obtain ⟨p, x, rfl⟩ : ∃ p' x, p = p' ++ [x] := by
      refine ⟨p.dropLast, p.getLast (by rintro rfl; simp at hp), ?_⟩
      exact (List.dropLast_concat_getLast _).symm
    obtain rfl : p.length = i := by simpa using hp
    have hfirst := memcpy_append (p ++ [x]) q r src hq
    have hsecond := memcpy_append p [x] (src ++ r) [c] rfl
    have hboth := memcpy_append p (x :: q) r (c :: src) (by simp [hq])
    simp only [List.append_assoc, List.cons_append, List.nil_append, List.length_append,
      List.length_singleton] at hfirst hsecond hboth ⊢
    rw [hfirst, ok_bind, store_eq_memcpy, hsecond, hboth]
  · rw [memcpy_of_not_fits h, memcpy_of_not_fits]
    · rfl
    · simp only [List.length_cons]
      omega

end Libc

end Webstore
