/-
  Webstore.Radix

  Numerals of a fixed number of digits in any base, most significant digit
  first: the value of a list of digits, the digits of a number, and that the
  two undo each other.
-/
import Mathlib.Data.List.Induction
import Mathlib.Data.Nat.Basic
import Mathlib.Tactic.Ring

namespace Webstore.Radix

variable {b : Nat}

/-- The value of a list of digits. -/
def value (b : Nat) (ds : List Nat) : Nat := ds.foldl (fun acc d => acc * b + d) 0

/-- The last `k` digits of `n`. -/
def digits (b : Nat) : Nat → Nat → List Nat
  | 0, _ => []
  | k + 1, n => digits b k (n / b) ++ [n % b]

@[simp] theorem value_nil : value b [] = 0 := rfl

@[simp] theorem value_concat (ds : List Nat) (d : Nat) :
    value b (ds ++ [d]) = value b ds * b + d := by
  simp [value]

@[simp] theorem digits_zero (n : Nat) : digits b 0 n = [] := rfl

theorem digits_succ (k n : Nat) : digits b (k + 1) n = digits b k (n / b) ++ [n % b] := rfl

@[simp] theorem length_digits (k n : Nat) : (digits b k n).length = k := by
  induction k generalizing n with
  | zero => rfl
  | succ k ih => simp [digits_succ, ih]

/-- Digits are smaller than the base. -/
theorem lt_of_mem_digits (hb : 0 < b) {k n d : Nat} (h : d ∈ digits b k n) : d < b := by
  induction k generalizing n with
  | zero => cases h
  | succ k ih =>
      rw [digits_succ] at h
      rcases List.mem_append.mp h with h | h
      · exact ih h
      · rw [List.mem_singleton.mp h]
        exact Nat.mod_lt n hb

/-- A number that has no more than `k` digits is the value of these. -/
theorem value_digits {k n : Nat} (h : n < b ^ k) : value b (digits b k n) = n := by
  induction k generalizing n with
  | zero =>
      rw [Nat.pow_zero] at h
      simp only [digits_zero, value_nil]
      omega
  | succ k ih =>
      have hdiv : n / b < b ^ k := by
        rw [Nat.pow_succ, Nat.mul_comm] at h
        exact Nat.div_lt_of_lt_mul h
      rw [digits_succ, value_concat, ih hdiv]
      exact Nat.div_add_mod' n b

/-- Digits spell no more than there is room for. -/
theorem value_lt {ds : List Nat} (h : ∀ d ∈ ds, d < b) : value b ds < b ^ ds.length := by
  induction ds using List.reverseRecOn with
  | nil => simp
  | append_singleton ds d ih =>
      have hd : d < b := h d (by simp)
      have hds : value b ds < b ^ ds.length := ih fun d' hm => h d' (List.mem_append_left _ hm)
      rw [value_concat, List.length_append, List.length_singleton, Nat.pow_succ]
      calc value b ds * b + d
        _ < value b ds * b + b := by omega
        _ = (value b ds + 1) * b := by ring
        _ ≤ b ^ ds.length * b := Nat.mul_le_mul_right b hds

/-- The digits of the value of digits are these. -/
theorem digits_value (ds : List Nat) (h : ∀ d ∈ ds, d < b) :
    digits b ds.length (value b ds) = ds := by
  induction ds using List.reverseRecOn with
  | nil => rfl
  | append_singleton ds d ih =>
      have hd : d < b := h d (by simp)
      have hb : 0 < b := by omega
      have hdiv : (value b ds * b + d) / b = value b ds := by
        rw [Nat.mul_comm, Nat.mul_add_div hb, Nat.div_eq_of_lt hd, Nat.add_zero]
      have hmod : (value b ds * b + d) % b = d := by
        rw [Nat.mul_comm, Nat.mul_add_mod, Nat.mod_eq_of_lt hd]
      rw [List.length_append, List.length_singleton, digits_succ, value_concat, hdiv, hmod,
        ih fun d' hm => h d' (List.mem_append_left _ hm)]

/-- Digits only see a number up to a power of the base. -/
theorem digits_mod (k n : Nat) : digits b k (n % b ^ k) = digits b k n := by
  induction k generalizing n with
  | zero => rfl
  | succ k ih =>
      have hdiv : n % b ^ (k + 1) / b = n / b % b ^ k := by
        rw [Nat.pow_succ, Nat.mul_comm, Nat.mod_mul_right_div_self]
      have hmod : n % b ^ (k + 1) % b = n % b := by
        rw [Nat.pow_succ, Nat.mod_mul_left_mod]
      rw [digits_succ, digits_succ, hdiv, hmod, ih]

end Webstore.Radix
