/-
  Webstore.Ring

  A ring of slots that are written in turn: the `m`-th write goes to slot
  `m % n`.  Read from the slot that is written next, the ring holds the last
  `n` values in their order.  What it held at first counts as written before
  the first write.
-/
import Mathlib.Data.List.Rotate

namespace Webstore.Ring

variable {α : Type}

/-- Writing at the slot a reader begins with puts the value at the end. -/
theorem rotate_set {ring : List α} {m : Nat} (h : 0 < ring.length) (d : α) :
    (ring.set (m % ring.length) d).rotate (m + 1) = (ring.rotate m).tail ++ [d] := by
  have hlt : m % ring.length < ring.length := Nat.mod_lt m h
  generalize hk : m % ring.length = k at hlt ⊢
  obtain ⟨p, x, q, rfl, rfl⟩ : ∃ p x q, ring = p ++ x :: q ∧ p.length = k :=
    ⟨ring.take k, ring[k], ring.drop (k + 1), by simp, by simp; omega⟩
  have hset : (p ++ x :: q).set p.length d = p ++ d :: q := by simp
  have hlen : (p ++ d :: q).length = (p ++ x :: q).length := by simp
  have hold : (p ++ x :: q).rotate m = x :: (q ++ p) := by
    rw [← List.rotate_mod, hk, List.rotate_append_length_eq, List.cons_append]
  have hnew : (p ++ d :: q).rotate (m + 1) = q ++ p ++ [d] := by
    rw [← List.rotate_rotate, ← List.rotate_mod _ m, hlen, hk, List.rotate_append_length_eq,
      List.cons_append, List.rotate_cons_succ, List.rotate_zero]
  rw [hset, hold, hnew, List.tail_cons]

/-- `ring` held `init` at first and was then written with `past`. -/
structure Holds (init past ring : List α) : Prop where
  size : ring.length = init.length
  order : ring.rotate past.length = (init ++ past).drop past.length

theorem Holds.init (init : List α) : Holds init [] init := ⟨rfl, by simp⟩

/-- One more write. -/
theorem Holds.write {init past ring : List α} (h : Holds init past ring) (hpos : 0 < init.length)
    (d : α) : Holds init (past ++ [d]) (ring.set (past.length % init.length) d) where
  size := by rw [List.length_set, h.size]
  order := by
    have hle : past.length + 1 ≤ (init ++ past).length := by
      rw [List.length_append]
      omega
    rw [← h.size, List.length_append, List.length_singleton, rotate_set (h.size ▸ hpos), h.order,
      List.tail_drop, ← List.append_assoc, List.drop_append_of_le_length hle]

/-- Once every slot has been written the ring holds the last values, and
    nothing else. -/
theorem Holds.perm {init past ring : List α} (h : Holds init past ring)
    (hfull : init.length ≤ past.length) : ring.Perm (past.drop (past.length - init.length)) := by
  have hdrop : (init ++ past).drop past.length = past.drop (past.length - init.length) := by
    rw [List.drop_append, List.drop_eq_nil_of_le hfull, List.nil_append]
  rw [← hdrop, ← h.order]
  exact (List.rotate_perm ring past.length).symm

end Webstore.Ring
