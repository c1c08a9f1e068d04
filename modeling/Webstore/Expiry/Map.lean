/-
  Webstore.Expiry.Map

  Maps whose entries vanish when their time is up.  A map carries its clock;
  an entry has a deadline or none, and the map never holds an entry whose
  deadline has passed, which is a field of the structure and not a side
  condition of the lemmas.  Keys and values are arbitrary.
-/
import Mathlib.Logic.Function.Basic

namespace Webstore.Expiry

/-- A value and the time from which on it is gone; `none` is never. -/
structure Entry (ν : Type) where
  val : ν
  deadline : Option Nat

/-- The entry is still there at time `now`. -/
def Entry.live {ν : Type} (e : Entry ν) (now : Nat) : Bool :=
  match e.deadline with
  | none => true
  | some d => decide (now < d)

/-- A map with a clock, none of whose entries has expired. -/
structure Map (κ ν : Type) where
  now : Nat
  get : κ → Option (Entry ν)
  live : ∀ k e, get k = some e → e.live now = true

namespace Map

variable {κ ν : Type}

@[ext] theorem ext {m n : Map κ ν} (hnow : m.now = n.now) (hget : ∀ k, m.get k = n.get k) :
    m = n := by
  obtain ⟨a, f, hf⟩ := m
  obtain ⟨b, g, hg⟩ := n
  obtain rfl : a = b := hnow
  obtain rfl : f = g := funext hget
  rfl

/-- The map without entries, at time `now`. -/
def empty (now : Nat) : Map κ ν := ⟨now, fun _ => none, nofun⟩

@[simp] theorem get_empty (now : Nat) (k : κ) : (empty now : Map κ ν).get k = none := rfl

/-- Let `d` units of time pass. -/
def tick (m : Map κ ν) (d : Nat) : Map κ ν where
  now := m.now + d
  get k := (m.get k).filter fun e => e.live (m.now + d)
  live _ _ h := (Option.filter_eq_some_iff.mp h).2

@[simp] theorem now_tick (m : Map κ ν) (d : Nat) : (m.tick d).now = m.now + d := rfl

theorem get_tick (m : Map κ ν) (d : Nat) (k : κ) :
    (m.tick d).get k = (m.get k).filter fun e => e.live (m.now + d) := rfl

/-- Time only removes entries. -/
theorem get_of_get_tick {m : Map κ ν} {d : Nat} {k : κ} {e : Entry ν}
    (h : (m.tick d).get k = some e) : m.get k = some e :=
  (Option.filter_eq_some_iff.mp h).1

/-- What time removes had a deadline, and it has passed. -/
theorem deadline_of_get_tick_eq_none {m : Map κ ν} {d : Nat} {k : κ} {e : Entry ν}
    (h : m.get k = some e) (hd : (m.tick d).get k = none) :
    ∃ t, e.deadline = some t ∧ t ≤ m.now + d := by
  rw [get_tick, h, Option.filter_some] at hd
  cases ht : e.deadline with
  | none => simp [Entry.live, ht] at hd
  | some t =>
      simp only [Entry.live, ht, decide_eq_true_eq] at hd
      split at hd
      · cases hd
      · exact ⟨t, rfl, by omega⟩

section
variable [DecidableEq κ]

/-- Remove the entry of `k`. -/
def erase (m : Map κ ν) (k : κ) : Map κ ν where
  now := m.now
  get := Function.update m.get k none
  live k' e h := by
    by_cases hk : k' = k
    · subst hk
      simp at h
    · rw [Function.update_of_ne hk] at h
      exact m.live k' e h

/-- Bind `k` to `e`; an entry that has expired already leaves nothing behind. -/
def put (m : Map κ ν) (k : κ) (e : Entry ν) : Map κ ν where
  now := m.now
  get := Function.update m.get k (if e.live m.now then some e else none)
  live k' e' h := by
    by_cases hk : k' = k
    · subst hk
      rw [Function.update_self] at h
      split at h
      · cases h
        assumption
      · cases h
    · rw [Function.update_of_ne hk] at h
      exact m.live k' e' h

@[simp] theorem now_erase (m : Map κ ν) (k : κ) : (m.erase k).now = m.now := rfl

@[simp] theorem get_erase_self (m : Map κ ν) (k : κ) : (m.erase k).get k = none := by
  simp [erase]

theorem get_erase_ne (m : Map κ ν) {k k' : κ} (h : k' ≠ k) : (m.erase k).get k' = m.get k' := by
  simp [erase, Function.update_of_ne h]

@[simp] theorem now_put (m : Map κ ν) (k : κ) (e : Entry ν) : (m.put k e).now = m.now := rfl

theorem get_put_self (m : Map κ ν) (k : κ) {e : Entry ν} (h : e.live m.now = true) :
    (m.put k e).get k = some e := by
  simp [put, h]

theorem eq_of_get_put_self {m : Map κ ν} {k : κ} {e e' : Entry ν}
    (h : (m.put k e).get k = some e') : e' = e := by
  simp only [put, Function.update_self] at h
  split at h
  · exact (Option.some.inj h).symm
  · cases h

theorem get_put_ne (m : Map κ ν) {k k' : κ} (e : Entry ν) (h : k' ≠ k) :
    (m.put k e).get k' = m.get k' := by
  simp [put, Function.update_of_ne h]

/-- Removing an entry and letting time pass commute. -/
theorem tick_erase (m : Map κ ν) (k : κ) (d : Nat) : (m.erase k).tick d = (m.tick d).erase k := by
  ext k' : 1
  · rfl
  · by_cases hk : k' = k
    · subst hk
      rw [get_tick, get_erase_self, get_erase_self]
      rfl
    · rw [get_erase_ne _ hk, get_tick, get_tick, get_erase_ne _ hk, now_erase]

end

end Map

end Webstore.Expiry
