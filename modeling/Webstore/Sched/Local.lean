/-
  Webstore.Sched.Local

  What a thread's own events say about what it has still to do.  An assertion
  about one thread, its program and the events it has left is kept by every
  interleaving as soon as the thread's own steps keep it: the steps of the
  others reach it only through the resource, of which an invariant `G` is all
  that may be used.
-/
import Webstore.Sched.Outline

namespace Webstore.Sched

variable {S : Sig} {σ Req Resp Env Choice : Type}

/-- The events of thread `i`. -/
def own (i : Nat) (h : List (Event S σ Req Env)) : List (Event S σ Req Env) :=
  h.filter fun ev => ev.tid == some i

theorem mem_own {i : Nat} {h : List (Event S σ Req Env)} {ev : Event S σ Req Env} :
    ev ∈ own i h ↔ ev ∈ h ∧ ev.tid = some i := by
  simp [own]

theorem own_append (i : Nat) (h h' : List (Event S σ Req Env)) :
    own i (h ++ h') = own i h ++ own i h' := List.filter_append ..

theorem own_of_ne {i : Nat} {es : List (Event S σ Req Env)} (h : ∀ ev ∈ es, ev.tid ≠ some i) :
    own i es = [] :=
  List.filter_eq_nil_iff.mpr fun ev hm => by simpa using h ev hm

/-- An environment step is nobody's. -/
theorem own_single_env (i : Nat) (e : Env) (pre post : σ) :
    own i [(Event.env e pre post : Event S σ Req Env)] = [] := rfl

/-- The events of a thread's step are its own. -/
theorem own_recorded (i : Nat) (r : Req) (b : Bool) (o : S.Op) (v : S.Ret o) (pre post : σ) :
    own i (if b then [(Event.op i r o v pre post : Event S σ Req Env)] else []) =
      if b then [.op i r o v pre post] else [] := by
  cases b <;> simp [own]

namespace Machine

variable {M : Machine S σ Req Resp Env Choice} {G : σ → Prop}
  {A : Nat → Req → Prog S Resp → List (Event S σ Req Env) → Prop}

/-- The steps of a thread keep what is claimed of it, and every step keeps `G`. -/
structure Local (M : Machine S σ Req Resp Env Choice) (G : σ → Prop)
    (A : Nat → Req → Prog S Resp → List (Event S σ Req Env) → Prop) : Prop where
  env : ∀ {e a b}, G a → M.env e a = some b → G b
  starts : ∀ i r, A i r (M.body r) []
  lock : ∀ {i r k es}, A i r (.lock k) es → A i r k es
  unlock : ∀ {i r k es}, A i r (.unlock k) es → A i r k es
  op : ∀ {i r o k es a b c v}, A i r (.op o k) es → G a → M.exec o a c = some (v, b) →
    G b ∧ A i r (k v) (es ++ if M.observed o then [.op i r o v a b] else [])

/-- What a run has kept. -/
structure Kept (G : σ → Prop)
    (A : Nat → Req → Prog S Resp → List (Event S σ Req Env) → Prop)
    (h : List (Event S σ Req Env)) (s : Sys S σ Req Resp) : Prop where
  tids : ∀ ev ∈ h, ∀ i, ev.tid = some i → i < s.threads.length
  shared : G s.shared
  threads : ∀ i t, s.threads[i]? = some t → A i t.req t.code (own i h)

/-- New events come from threads that exist. -/
theorem Kept.tids_append {h es : List (Event S σ Req Env)} {s : Sys S σ Req Resp}
    (K : Kept G A h s) {n : Nat} (hn : s.threads.length ≤ n)
    (hes : ∀ ev ∈ es, ∀ i, ev.tid = some i → i < n) :
    ∀ ev ∈ h ++ es, ∀ i, ev.tid = some i → i < n := by
  intro ev hm i hi
  rcases List.mem_append.mp hm with hm | hm
  · exact Nat.lt_of_lt_of_le (K.tids ev hm i hi) hn
  · exact hes ev hm i hi

/-- A new thread has no events of its own yet. -/
theorem Kept.spawn (L : M.Local G A) {h : List (Event S σ Req Env)} {s : Sys S σ Req Resp}
    (K : Kept G A h s) (r : Req) :
    Kept G A h { s with threads := s.threads ++ [⟨r, M.body r⟩] } where
  tids ev hm i hi := by
    have := K.tids ev hm i hi
    simp only [List.length_append, List.length_singleton]
    omega
  shared := K.shared
  threads i t ht := by
    rcases getElem?_append_singleton ht with ht | ⟨rfl, rfl⟩
    · exact K.threads i t ht
    · rw [own_of_ne fun ev hm heq => absurd (K.tids ev hm _ heq) (Nat.lt_irrefl _)]
      exact L.starts _ r

/-- A step of thread `i` to `p` that leaves `es`. -/
theorem Kept.step {h es : List (Event S σ Req Env)} {s : Sys S σ Req Resp} (K : Kept G A h s)
    {i : Nat} {r : Req} {p p' : Prog S Resp} (ht : s.threads[i]? = some ⟨r, p⟩) {b : σ} (hb : G b)
    (holder : Option Nat) (hes : ∀ ev ∈ es, ev.tid = some i)
    (hA : A i r p' (own i h ++ own i es)) :
    Kept G A (h ++ es) ⟨b, holder, s.threads.set i ⟨r, p'⟩⟩ where
  tids := by
    refine K.tids_append (by simp) fun ev hm j hj => ?_
    have := (hes ev hm).symm.trans hj
    cases this
    simpa using (List.getElem?_eq_some_iff.mp ht).1
  shared := hb
  threads j t hj := by
    rw [own_append]
    rcases getElem?_set_cases hj with ⟨rfl, rfl⟩ | ⟨hji, hj⟩
    · exact hA
    -- what `i` records is not in the history of another thread
    · have hne : ∀ ev ∈ es, ev.tid ≠ some j := by
        intro ev hm heq
        exact hji (Option.some.inj (heq.symm.trans (hes ev hm)))
      rw [own_of_ne hne, List.append_nil]
      exact K.threads j t hj

/-- A run keeps what the steps of each thread keep. -/
theorem Local.kept (L : M.Local G A) {s₀ s : Sys S σ Req Resp} {h : List (Event S σ Req Env)}
    (h₀ : Kept G A [] s₀) (run : M.Run s₀ h s) : Kept G A h s := by
  refine Run.induct (P := Kept G A) h₀ ?_ run
  intro h s l es s' K hs
  rcases step_cases hs with
    ⟨r, -, rfl, rfl⟩ | ⟨i, r, k, ht, -, rfl, rfl⟩ | ⟨i, r, k, ht, rfl, rfl⟩ |
    ⟨i, r, o, k, c, v, σ', ht, hx, rfl, rfl⟩ | ⟨e, σ', he, rfl, rfl⟩
  · rw [List.append_nil]
    exact K.spawn L r
  -- the lock changes hands: nothing is recorded
  · refine K.step ht K.shared _ (by simp) ?_
    simpa [own] using L.lock (K.threads i _ ht)
  · refine K.step ht K.shared _ (by simp) ?_
    simpa [own] using L.unlock (K.threads i _ ht)
  · obtain ⟨hG, hA⟩ := L.op (K.threads i _ ht) K.shared hx
    refine K.step ht hG _ (fun ev hm => ?_) ?_
    · split at hm
      · rw [List.mem_singleton.mp hm]
        rfl
      · cases hm
    · rw [own_recorded]
      exact hA
  · refine ⟨K.tids_append (Nat.le_refl _) ?_, L.env K.shared he, fun j t hj => ?_⟩
    · intro ev hm j hj
      rw [List.mem_singleton.mp hm] at hj
      cases hj
    · rw [own_append, own_single_env, List.append_nil]
      exact K.threads j t hj

theorem Kept.init {s₀ : σ} (h₀ : G s₀) :
    Kept G A [] (Machine.init s₀ : Sys S σ Req Resp) where
  tids := by simp
  shared := h₀
  threads i t ht := by cases ht

end Machine

end Webstore.Sched
