/-
  Webstore.Expiry.Store

  A store on an expiring map, as a specification: calls are handled one at a
  time, each at one moment.  Three settings say how long an entry lives,
  whether it may be overwritten, and whether reading removes it.  Keys,
  values and the names of the callers are arbitrary.
-/
import Webstore.Expiry.Map

namespace Webstore.Expiry

/-- How the store treats its entries. -/
structure Settings where
  ttl : Option Nat
  writeOnce : Bool
  burn : Bool

inductive Call (κ ν : Type) where
  | get (k : κ)
  | put (k : κ) (v : ν)

/-- The key a call is about. -/
def Call.key {κ ν : Type} : Call κ ν → κ
  | .get k => k
  | .put k _ => k

inductive Answer (ν : Type) where
  | found (v : ν)
  | missing
  | stored
  | kept

/-- One moment of a store's life: a call, or time passing. -/
inductive Step (ι κ ν : Type) where
  | call (i : ι) (c : Call κ ν)
  | tick (d : Nat)

namespace Settings

variable {ι κ ν : Type} [DecidableEq κ] (st : Settings)

/-- Handle one call. -/
def serve (m : Map κ ν) : Call κ ν → Answer ν × Map κ ν
  | .get k =>
      match m.get k with
      | some e => (.found e.val, if st.burn then m.erase k else m)
      | none => (.missing, m)
  | .put k v =>
      if st.writeOnce && (m.get k).isSome then (.kept, m)
      else (.stored, m.put k ⟨v, st.ttl.map fun t => m.now + t⟩)

/-- One step, on the entries and the answers given so far. -/
def play (s : Map κ ν × List (ι × Answer ν)) : Step ι κ ν → Map κ ν × List (ι × Answer ν)
  | .call i c => ((st.serve s.1 c).2, s.2 ++ [(i, (st.serve s.1 c).1)])
  | .tick d => (s.1.tick d, s.2)

/-- Handle calls one after the other. -/
def run (m : Map κ ν) (steps : List (Step ι κ ν)) : Map κ ν × List (ι × Answer ν) :=
  steps.foldl st.play (m, [])

theorem run_concat (m : Map κ ν) (steps : List (Step ι κ ν)) (s : Step ι κ ν) :
    st.run m (steps ++ [s]) = st.play (st.run m steps) s := by
  simp [run]

theorem serve_get_some {m : Map κ ν} {k : κ} {e : Entry ν} (h : m.get k = some e) :
    st.serve m (.get k) = (.found e.val, if st.burn then m.erase k else m) := by
  simp [serve, h]

theorem serve_get_none {m : Map κ ν} {k : κ} (h : m.get k = none) :
    st.serve m (.get k) = (.missing, m) := by
  simp [serve, h]

theorem serve_put_kept {m : Map κ ν} {k : κ} (v : ν) (h₁ : st.writeOnce = true)
    (h₂ : (m.get k).isSome = true) : st.serve m (.put k v) = (.kept, m) := by
  simp [serve, h₁, h₂]

/-- A value is stored unless the key may be written once only. -/
theorem serve_put_stored {m : Map κ ν} {k : κ} (v : ν) (h : st.writeOnce = true → m.get k = none) :
    st.serve m (.put k v) = (.stored, m.put k ⟨v, st.ttl.map fun t => m.now + t⟩) := by
  have hcond : ¬ (st.writeOnce && (m.get k).isSome) = true := by
    intro hc
    obtain ⟨h₁, h₂⟩ := Bool.and_eq_true_iff.mp hc
    simp [h h₁] at h₂
  simp only [serve, if_neg hcond]

end Settings

/-! ## Stores that agree on some keys -/

/-- Maps that cannot be told apart by the keys of `K`. -/
structure Map.AgreeOn {κ ν : Type} (K : κ → Prop) (m n : Map κ ν) : Prop where
  now : m.now = n.now
  get : ∀ k, K k → m.get k = n.get k

namespace Map.AgreeOn

variable {κ ν : Type} {K : κ → Prop} {l m n : Map κ ν}

theorem refl (K : κ → Prop) (m : Map κ ν) : m.AgreeOn K m := ⟨rfl, fun _ _ => rfl⟩

theorem trans (h : l.AgreeOn K m) (h' : m.AgreeOn K n) : l.AgreeOn K n :=
  ⟨h.now.trans h'.now, fun k hk => (h.get k hk).trans (h'.get k hk)⟩

theorem tick (h : m.AgreeOn K n) (d : Nat) : (m.tick d).AgreeOn K (n.tick d) where
  now := by rw [now_tick, now_tick, h.now]
  get k hk := by rw [get_tick, get_tick, h.get k hk, h.now]

variable [DecidableEq κ]

theorem erase (h : m.AgreeOn K n) (k : κ) : (m.erase k).AgreeOn K (n.erase k) where
  now := h.now
  get k' hk' := by
    by_cases hk : k' = k
    · rw [hk, get_erase_self, get_erase_self]
    · rw [get_erase_ne m hk, get_erase_ne n hk, h.get k' hk']

theorem put (h : m.AgreeOn K n) (k : κ) (e : Entry ν) : (m.put k e).AgreeOn K (n.put k e) where
  now := h.now
  get k' hk' := by
    by_cases hk : k' = k
    · simp [hk, Map.put, h.now]
    · rw [get_put_ne m e hk, get_put_ne n e hk, h.get k' hk']

/-- A call on a key of `K` is answered the same, and they still agree. -/
theorem serve (h : m.AgreeOn K n) (st : Settings) {c : Call κ ν} (hc : K c.key) :
    (st.serve m c).1 = (st.serve n c).1 ∧ (st.serve m c).2.AgreeOn K (st.serve n c).2 := by
  have hget := h.get c.key hc
  cases c with
  | get k =>
      replace hget : m.get k = n.get k := hget
      cases hk : n.get k with
      | none =>
          rw [st.serve_get_none hk, st.serve_get_none (hget.trans hk)]
          exact ⟨rfl, h⟩
      | some e =>
          rw [st.serve_get_some hk, st.serve_get_some (hget.trans hk)]
          refine ⟨rfl, ?_⟩
          dsimp only
          split
          · exact h.erase k
          · exact h
  | put k v =>
      replace hget : m.get k = n.get k := hget
      -- both maps have a value to keep, or neither
      by_cases hkept : st.writeOnce = true ∧ (n.get k).isSome = true
      · rw [st.serve_put_kept v hkept.1 hkept.2, st.serve_put_kept v hkept.1 (hget ▸ hkept.2)]
        exact ⟨rfl, h⟩
      · have hnone : st.writeOnce = true → n.get k = none := fun hw =>
          Option.not_isSome_iff_eq_none.mp fun hs => hkept ⟨hw, hs⟩
        rw [st.serve_put_stored v hnone, st.serve_put_stored v fun hw => hget.trans (hnone hw),
          h.now]
        exact ⟨rfl, h.put k _⟩

end Map.AgreeOn

end Webstore.Expiry
