/-
  Webstore.Sched.Outline

  Proof outlines for threads that touch the shared resource only inside one
  section: from taking the mutex to giving it back when requests are served
  concurrently, from start to answer when they are served one at a time.

  An outline names four assertions about the history and the resource:
  `I` holds always, `J` holds while no thread is in its section, `A` holds
  of the thread that is in its section, at each point of its program, and
  `Post` holds of every answer once it is given.  `Outline.Valid` lists what
  has to be shown of them, one step at a time; `Outline.holds_of_run` then
  gives all four in every state of every interleaving.
-/
import Mathlib.Data.List.Induction
import Webstore.Sched.Machine

namespace Webstore.Sched

variable {S : Sig} {σ Req Resp Env Choice : Type}

/-- A history together with the resource it led to. -/
structure World (S : Sig) (σ Req Env : Type) where
  hist : List (Event S σ Req Env)
  shared : σ

namespace World

/-- The world after one more recorded event. -/
def push (w : World S σ Req Env) (ev : Event S σ Req Env) : World S σ Req Env :=
  ⟨w.hist ++ [ev], ev.post⟩

@[simp] theorem push_hist (w : World S σ Req Env) (ev : Event S σ Req Env) :
    (w.push ev).hist = w.hist ++ [ev] := rfl

@[simp] theorem push_shared (w : World S σ Req Env) (ev : Event S σ Req Env) :
    (w.push ev).shared = ev.post := rfl

theorem mem_push {w : World S σ Req Env} {ev ev' : Event S σ Req Env} :
    ev' ∈ (w.push ev).hist ↔ ev' ∈ w.hist ∨ ev' = ev := by
  rw [push_hist, List.mem_append, List.mem_singleton]

theorem mem_push_self (w : World S σ Req Env) (ev : Event S σ Req Env) : ev ∈ (w.push ev).hist :=
  mem_push.mpr (.inr rfl)

theorem mem_push_of_mem {w : World S σ Req Env} {ev' : Event S σ Req Env} (h : ev' ∈ w.hist)
    (ev : Event S σ Req Env) : ev' ∈ (w.push ev).hist :=
  mem_push.mpr (.inl h)

/-- An event of thread `i` is older than one of somebody else. -/
theorem mem_of_mem_push {w : World S σ Req Env} {ev ev' : Event S σ Req Env} {i : Nat}
    (hm : ev' ∈ (w.push ev).hist) (htid : ev'.tid = some i) (hev : ev.tid ≠ some i) :
    ev' ∈ w.hist := by
  rcases mem_push.mp hm with hm | rfl
  · exact hm
  · exact absurd htid hev

/-- Thread `i` has left no event yet. -/
def Fresh (i : Nat) (w : World S σ Req Env) : Prop :=
  ∀ ev ∈ w.hist, ev.tid ≠ some i

theorem Fresh.push {i : Nat} {w : World S σ Req Env} (h : w.Fresh i)
    {ev : Event S σ Req Env} (hev : ev.tid ≠ some i) : (w.push ev).Fresh i := by
  intro ev' hm
  rcases mem_push.mp hm with hm | rfl
  · exact h ev' hm
  · exact hev

/-- The only event of a thread that was fresh before it. -/
theorem Fresh.eq_of_mem_push {i : Nat} {w : World S σ Req Env} (h : w.Fresh i)
    {ev ev' : Event S σ Req Env} (hm : ev' ∈ (w.push ev).hist) (htid : ev'.tid = some i) :
    ev' = ev := by
  rcases mem_push.mp hm with hm | rfl
  · exact absurd htid (h ev' hm)
  · rfl

/-- What the events of the others do not change holds of a history to which
    thread `i` has not contributed. -/
theorem Fresh.induct {i : Nat} {P : List (Event S σ Req Env) → Prop} (nil : P [])
    (push : ∀ h ev, P h → ev.tid ≠ some i → P (h ++ [ev])) {w : World S σ Req Env}
    (hf : w.Fresh i) : P w.hist := by
  obtain ⟨hist, shared⟩ := w
  induction hist using List.reverseRecOn with
  | nil => exact nil
  | append_singleton past ev ih =>
      exact push past ev (ih fun ev' hm => hf ev' (List.mem_append_left _ hm)) (hf ev (by simp))

/-- The resource satisfies `Q` now and did before every event. -/
def Every (Q : σ → Prop) (w : World S σ Req Env) : Prop :=
  Q w.shared ∧ ∀ ev ∈ w.hist, Q ev.pre

/-- One more event keeps what holds of all states if it holds behind it. -/
theorem Every.push {Q : σ → Prop} {w : World S σ Req Env} (h : w.Every Q)
    {ev : Event S σ Req Env} (hpre : ev.pre = w.shared) (hpost : Q ev.post) :
    (w.push ev).Every Q := by
  refine ⟨hpost, fun ev' hm => ?_⟩
  rcases mem_push.mp hm with hm | rfl
  · exact h.2 ev' hm
  · rw [hpre]
    exact h.1

end World

/-- Thread `i` is in its section. -/
def Machine.InSection (M : Machine S σ Req Resp Env Choice) (s : Sys S σ Req Resp) (i : Nat) :
    Prop :=
  if M.concurrent then s.holder = some i
  else ∃ t, s.threads[i]? = some t ∧ t.code.isDone = false

/-- A proof outline for the threads of `M`. -/
structure Outline (M : Machine S σ Req Resp Env Choice) where
  I : World S σ Req Env → Prop
  J : World S σ Req Env → Prop
  A : Nat → Req → Prog S Resp → World S σ Req Env → Prop
  Post : Nat → Req → Resp → World S σ Req Env → Prop

namespace Outline

variable {M : Machine S σ Req Resp Env Choice} (O : Outline M)

/-- Program `p` of thread `i` leads to its section, or to an answer without
    one, through unobserved operations only. -/
inductive Entry (i : Nat) (r : Req) : Prog S Resp → Prop where
  | done {a : Resp} (h : ∀ w, O.I w → w.Fresh i → O.Post i r a w) : Entry i r (.done a)
  | lock {k : Prog S Resp} (h : ∀ w, O.J w → w.Fresh i → O.A i r k w) : Entry i r (.lock k)
  | read {o : S.Op} {k : S.Ret o → Prog S Resp} (ho : M.observed o = false)
      (h : ∀ w c v σ', O.I w → M.exec o w.shared c = some (v, σ') → Entry i r (k v)) :
      Entry i r (.op o k)

/-- What has to be shown of the program a request starts with. -/
def Starts (i : Nat) (r : Req) (p : Prog S Resp) : Prop :=
  if M.concurrent then O.Entry i r p
  else
    (∀ a, p = .done a → ∀ w, O.I w → w.Fresh i → O.Post i r a w) ∧
    (p.isDone = false → ∀ w, O.J w → w.Fresh i → O.A i r p w)

/-- The outline is stable under every step of the machine. -/
structure Valid : Prop where
  quiet : ∀ {o s c v σ'}, M.observed o = false → M.exec o s c = some (v, σ') → σ' = s
  always_of_rest : ∀ {w}, O.J w → O.I w
  always_of_section : ∀ {i r p w}, O.A i r p w → O.I w
  rest_env : ∀ {w e σ'}, O.J w → M.env e w.shared = some σ' → O.J (w.push (.env e w.shared σ'))
  section_env : ∀ {i r p w e σ'}, O.A i r p w → M.env e w.shared = some σ' →
    O.A i r p (w.push (.env e w.shared σ'))
  post_push : ∀ {i r a w ev}, O.Post i r a w → ev.tid ≠ some i → O.Post i r a (w.push ev)
  starts : ∀ i r, O.Starts i r (M.body r)
  section_op : ∀ {i r o k w c v σ'}, O.A i r (.op o k) w → M.exec o w.shared c = some (v, σ') →
    O.A i r (k v) (if M.observed o then w.push (.op i r o v w.shared σ') else w)
  section_unlock : ∀ {i r k w}, O.A i r (.unlock k) w →
    M.concurrent = true ∧ ∃ a, k = .done a ∧ O.J w ∧ O.Post i r a w
  section_done : ∀ {i r a w}, O.A i r (.done a) w →
    M.concurrent = false ∧ O.J w ∧ O.Post i r a w
  section_lock : ∀ {i r k w}, ¬ O.A i r (.lock k) w

/-- What the outline says of a history and the state it led to. -/
structure Holds (h : List (Event S σ Req Env)) (s : Sys S σ Req Resp) : Prop where
  tids : ∀ ev ∈ h, ∀ i, ev.tid = some i → i < s.threads.length
  rest : (∀ i, ¬ M.InSection s i) → O.J ⟨h, s.shared⟩
  sect : ∀ i, M.InSection s i →
    ∃ t, s.threads[i]? = some t ∧ O.A i t.req t.code ⟨h, s.shared⟩
  out : ∀ i t, s.threads[i]? = some t → ¬ M.InSection s i →
    (∃ a, t.code = .done a ∧ O.Post i t.req a ⟨h, s.shared⟩) ∨
    (M.concurrent = true ∧ O.Entry i t.req t.code ∧ World.Fresh i ⟨h, s.shared⟩)
  alone : M.concurrent = false → ∀ i t, s.threads[i]? = some t → t.code.isDone = false →
    i + 1 = s.threads.length

variable {O}

theorem inSection_concurrent (hm : M.concurrent = true) {s : Sys S σ Req Resp} {i : Nat} :
    M.InSection s i ↔ s.holder = some i := by
  simp [Machine.InSection, hm]

theorem inSection_sequential (hm : M.concurrent = false) {s : Sys S σ Req Resp} {i : Nat} :
    M.InSection s i ↔ ∃ t, s.threads[i]? = some t ∧ t.code.isDone = false := by
  simp [Machine.InSection, hm]

/-- The invariant holds of the history and the state that a run has reached. -/
theorem Holds.always (V : O.Valid) {h : List (Event S σ Req Env)} {s : Sys S σ Req Resp}
    (H : O.Holds h s) : O.I ⟨h, s.shared⟩ := by
  by_cases hs : ∃ i, M.InSection s i
  · obtain ⟨i, hi⟩ := hs
    obtain ⟨t, -, hA⟩ := H.sect i hi
    exact V.always_of_section hA
  · exact V.always_of_rest (H.rest fun i hi => hs ⟨i, hi⟩)

theorem Holds.fresh_length {h : List (Event S σ Req Env)} {s : Sys S σ Req Resp}
    (H : O.Holds h s) : World.Fresh s.threads.length ⟨h, s.shared⟩ := by
  intro ev hmem heq
  exact absurd (H.tids ev hmem _ heq) (Nat.lt_irrefl _)

/-- The answers given so far. -/
theorem Holds.answered (V : O.Valid) {h : List (Event S σ Req Env)} {s : Sys S σ Req Resp}
    (H : O.Holds h s) {i : Nat} {t : Thread S Req Resp} {a : Resp}
    (ht : s.threads[i]? = some t) (ha : t.code = .done a) : O.Post i t.req a ⟨h, s.shared⟩ := by
  by_cases hs : M.InSection s i
  · obtain ⟨t', ht', hA⟩ := H.sect i hs
    obtain rfl := Option.some.inj (ht'.symm.trans ht)
    rw [ha] at hA
    exact (V.section_done hA).2.2
  · rcases H.out i t ht hs with ⟨b, hb, hP⟩ | ⟨-, hE, hF⟩
    · rw [ha] at hb
      cases hb
      exact hP
    · rw [ha] at hE
      cases hE with
      | done hd => exact hd _ (H.always V) hF

/-! ## One lemma for each kind of step -/

/-- A history does not name a thread that comes later. -/
theorem Holds.tids_spawn {h : List (Event S σ Req Env)} {s : Sys S σ Req Resp}
    (H : O.Holds h s) (t₀ : Thread S Req Resp) :
    ∀ ev ∈ h, ∀ i, ev.tid = some i → i < (s.threads ++ [t₀]).length := by
  intro ev hmem i hi
  have := H.tids ev hmem i hi
  simp only [List.length_append, List.length_singleton]
  omega

/-- With threads, a new one starts outside the section and disturbs nobody. -/
theorem Holds.spawn_concurrent (V : O.Valid) (hc : M.concurrent = true)
    {h : List (Event S σ Req Env)} {s : Sys S σ Req Resp} (H : O.Holds h s) (r : Req) :
    O.Holds h { s with threads := s.threads ++ [⟨r, M.body r⟩] } := by
  have hstart := V.starts s.threads.length r
  simp only [Starts, hc, if_true] at hstart
  have hfresh := H.fresh_length
  -- a thread that starts does not take the lock
  have hsame : ∀ i, M.InSection { s with threads := s.threads ++ [⟨r, M.body r⟩] } i ↔
      M.InSection s i := by
    intro i
    rw [inSection_concurrent hc, inSection_concurrent hc]
  refine ⟨H.tids_spawn _, ?_, ?_, ?_, fun hf => absurd hc (by simp [hf])⟩
  · intro hn
    exact H.rest fun i hi => hn i ((hsame i).mpr hi)
  · intro i hi
    obtain ⟨t, ht, hA⟩ := H.sect i ((hsame i).mp hi)
    refine ⟨t, ?_, hA⟩
    rw [List.getElem?_append_left (List.getElem?_eq_some_iff.mp ht).1]
    exact ht
  · intro i t ht hn
    rcases getElem?_append_singleton ht with ht | ⟨rfl, rfl⟩
    · exact H.out i t ht fun hi => hn ((hsame i).mpr hi)
    · exact .inr ⟨hc, hstart, hfresh⟩

/-- Without threads, a new one starts when all others have answered. -/
theorem Holds.spawn_sequential (V : O.Valid) (hc : M.concurrent = false)
    {h : List (Event S σ Req Env)} {s : Sys S σ Req Resp} (H : O.Holds h s) (r : Req)
    (hall : ∀ t ∈ s.threads, t.code.isDone = true) :
    O.Holds h { s with threads := s.threads ++ [⟨r, M.body r⟩] } := by
  have hstart := V.starts s.threads.length r
  simp only [Starts, hc, Bool.false_eq_true, if_false] at hstart
  have hfresh := H.fresh_length
  have hold : ∀ (i : Nat) (t : Thread S Req Resp), s.threads[i]? = some t →
      t.code.isDone = true :=
    fun i t ht => hall t (List.mem_of_getElem? ht)
  -- every thread is done, so nobody is in a section and the resource is at rest
  have hJ : O.J ⟨h, s.shared⟩ := by
    apply H.rest
    intro i hi
    obtain ⟨t, ht, hd⟩ := (inSection_sequential hc).mp hi
    simp [hold i t ht] at hd
  refine ⟨H.tids_spawn _, fun _ => hJ, ?_, ?_, ?_⟩
  · intro i hi
    obtain ⟨t, ht, hd⟩ := (inSection_sequential hc).mp hi
    rcases getElem?_append_singleton ht with ht' | ⟨rfl, rfl⟩
    · simp [hold i t ht'] at hd
    · exact ⟨_, ht, hstart.2 hd _ hJ hfresh⟩
  · intro i t ht hn
    have hd : t.code.isDone = true := by
      rcases Bool.eq_false_or_eq_true t.code.isDone with hd | hd
      · exact hd
      · exact absurd ((inSection_sequential hc).mpr ⟨t, ht, hd⟩) hn
    obtain ⟨a, ha⟩ := Prog.isDone_iff.mp hd
    rcases getElem?_append_singleton ht with ht' | ⟨rfl, rfl⟩
    · exact .inl ⟨a, ha, H.answered V ht' ha⟩
    · exact .inl ⟨a, ha, hstart.1 a ha _ (V.always_of_rest hJ) hfresh⟩
  · intro _ i t ht hd
    rcases getElem?_append_singleton ht with ht' | ⟨rfl, rfl⟩
    · simp [hold i t ht'] at hd
    · simp

/-- What a step of thread `i` that takes the resource from `a` to `b` may
    record: nothing if it only reads, else the one operation. -/
def Recorded (i : Nat) (a b : σ) (es : List (Event S σ Req Env)) : Prop :=
  (es = [] ∧ b = a) ∨ ∃ r o v, es = [.op i r o v a b]

/-- A step records events of its own thread. -/
theorem Recorded.tid {i : Nat} {a b : σ} {es : List (Event S σ Req Env)} (h : Recorded i a b es) :
    ∀ ev ∈ es, ev.tid = some i := by
  intro ev hmem
  rcases h with ⟨rfl, -⟩ | ⟨r, o, v, rfl⟩
  · cases hmem
  · rw [List.mem_singleton.mp hmem]
    rfl

/-- An operation records itself, if it is observed at all. -/
theorem recorded_op (V : O.Valid) {i : Nat} {r : Req} {o : S.Op} {a b : σ} {c : Choice}
    {v : S.Ret o} (hx : M.exec o a c = some (v, b)) :
    Recorded i a b
      (if M.observed o then [.op i r o v a b] else [] : List (Event S σ Req Env)) := by
  by_cases ho : M.observed o = true
  · exact .inr ⟨r, o, v, by rw [if_pos ho]⟩
  · exact .inl ⟨by rw [if_neg ho], V.quiet (by simpa using ho) hx⟩

/-- The other threads keep what they had when thread `i` takes a step that
    records `es`. -/
theorem Holds.out_step (V : O.Valid) {h : List (Event S σ Req Env)} {s : Sys S σ Req Resp}
    (H : O.Holds h s) {i j : Nat} (hji : j ≠ i) {t : Thread S Req Resp}
    (ht : s.threads[j]? = some t) (hn : ¬ M.InSection s j)
    {es : List (Event S σ Req Env)} {σ' : σ} (hes : Recorded i s.shared σ' es) :
    (∃ a, t.code = .done a ∧ O.Post j t.req a ⟨h ++ es, σ'⟩) ∨
    (M.concurrent = true ∧ O.Entry j t.req t.code ∧ World.Fresh j ⟨h ++ es, σ'⟩) := by
  rcases hes with ⟨rfl, rfl⟩ | ⟨r, o, v, rfl⟩
  · rw [List.append_nil]
    exact H.out j t ht hn
  · have hev : (Event.op i r o v s.shared σ' : Event S σ Req Env).tid ≠ some j := by
      simpa using Ne.symm hji
    rcases H.out j t ht hn with ⟨a, ha, hP⟩ | ⟨hc, hE, hF⟩
    · exact .inl ⟨a, ha, V.post_push hP hev⟩
    · exact .inr ⟨hc, hE, hF.push hev⟩

/-- A step names its own thread, which exists. -/
theorem Holds.tids_step {h : List (Event S σ Req Env)} {s : Sys S σ Req Resp}
    (H : O.Holds h s) {i : Nat} {t₀ t₁ : Thread S Req Resp} (ht : s.threads[i]? = some t₀)
    {es : List (Event S σ Req Env)} {σ' : σ} (hes : Recorded i s.shared σ' es) :
    ∀ ev ∈ h ++ es, ∀ j, ev.tid = some j → j < (s.threads.set i t₁).length := by
  intro ev hmem j hj
  rw [List.length_set]
  rcases List.mem_append.mp hmem with hmem | hmem
  · exact H.tids ev hmem j hj
  · obtain rfl : i = j := Option.some.inj ((hes.tid ev hmem).symm.trans hj)
    exact (List.getElem?_eq_some_iff.mp ht).1

/-- A thread that takes the lock finds the resource invariant and enters its
    section. -/
theorem Holds.lock (V : O.Valid) {h : List (Event S σ Req Env)} {s : Sys S σ Req Resp}
    (H : O.Holds h s) {i : Nat} {r : Req} {k : Prog S Resp}
    (ht : s.threads[i]? = some ⟨r, .lock k⟩) (hfree : s.holder = none) :
    O.Holds h { s with holder := some i, threads := s.threads.set i ⟨r, k⟩ } := by
  have hi : i < s.threads.length := (List.getElem?_eq_some_iff.mp ht).1
  rcases Bool.eq_false_or_eq_true M.concurrent with hc | hc
  -- the lock is free: nobody is in a section, and `J` holds
  · have hnone : ∀ j, ¬ M.InSection s j := by
      intro j hj
      rw [inSection_concurrent hc, hfree] at hj
      cases hj
    have hJ := H.rest hnone
    have hA : O.A i r k ⟨h, s.shared⟩ := by
      rcases H.out i _ ht (hnone i) with ⟨a, ha, -⟩ | ⟨-, hE, hF⟩
      · cases ha
      · cases hE with
        | lock hk => exact hk _ hJ hF
    refine ⟨?_, ?_, ?_, ?_, fun hf => absurd hc (by simp [hf])⟩
    · intro ev hmem j hj
      rw [List.length_set]
      exact H.tids ev hmem j hj
    · intro hn
      exact absurd ((inSection_concurrent hc).mpr rfl) (hn i)
    · intro j hj
      cases (inSection_concurrent hc).mp hj
      exact ⟨⟨r, k⟩, List.getElem?_set_self hi, hA⟩
    · intro j t hj hn
      rcases getElem?_set_cases hj with ⟨rfl, -⟩ | ⟨-, hj⟩
      · exact absurd ((inSection_concurrent hc).mpr rfl) hn
      · exact H.out j t hj (hnone j)
  -- served one by one, the code of a section takes no lock
  · obtain ⟨t, ht', hA⟩ := H.sect i ((inSection_sequential hc).mpr ⟨_, ht, rfl⟩)
    obtain rfl := Option.some.inj (ht.symm.trans ht')
    exact absurd hA V.section_lock

/-- A thread that gives the lock back leaves the resource invariant behind. -/
theorem Holds.unlock (V : O.Valid) {h : List (Event S σ Req Env)} {s : Sys S σ Req Resp}
    (H : O.Holds h s) {i : Nat} {r : Req} {k : Prog S Resp}
    (ht : s.threads[i]? = some ⟨r, .unlock k⟩) :
    O.Holds h { s with holder := none, threads := s.threads.set i ⟨r, k⟩ } := by
  have hi : i < s.threads.length := (List.getElem?_eq_some_iff.mp ht).1
  -- the code outside a section releases nothing
  have hin : M.InSection s i := by
    rcases Bool.eq_false_or_eq_true M.concurrent with hc | hc
    · apply Classical.byContradiction
      intro hn
      rcases H.out i _ ht hn with ⟨a, ha, -⟩ | ⟨-, hE, -⟩
      · cases ha
      · cases hE
    · exact (inSection_sequential hc).mpr ⟨_, ht, rfl⟩
  obtain ⟨t, ht', hA⟩ := H.sect i hin
  obtain rfl := Option.some.inj (ht.symm.trans ht')
  obtain ⟨hc, a, rfl, hJ, hP⟩ := V.section_unlock hA
  have hhold := (inSection_concurrent hc).mp hin
  refine ⟨?_, fun _ => hJ, ?_, ?_, fun hf => absurd hc (by simp [hf])⟩
  · intro ev hmem j hj
    rw [List.length_set]
    exact H.tids ev hmem j hj
  · intro j hj
    cases (inSection_concurrent hc).mp hj
  · intro j t hj _
    rcases getElem?_set_cases hj with ⟨rfl, rfl⟩ | ⟨hji, hj⟩
    · exact .inl ⟨a, rfl, hP⟩
    · refine H.out j t hj fun hs => hji ?_
      have := (inSection_concurrent hc).mp hs
      rw [hhold] at this
      exact (Option.some.inj this).symm

/-- The thread that holds the mutex goes on to `p`. -/
theorem Holds.inside_concurrent (V : O.Valid) (hc : M.concurrent = true)
    {h : List (Event S σ Req Env)} {s : Sys S σ Req Resp} (H : O.Holds h s) {i : Nat} {r : Req}
    {p q : Prog S Resp} (ht : s.threads[i]? = some ⟨r, q⟩) (hin : M.InSection s i)
    {es : List (Event S σ Req Env)} {σ' : σ} (hes : Recorded i s.shared σ' es)
    (hA : O.A i r p ⟨h ++ es, σ'⟩) :
    O.Holds (h ++ es) { s with shared := σ', threads := s.threads.set i ⟨r, p⟩ } := by
  have hi : i < s.threads.length := (List.getElem?_eq_some_iff.mp ht).1
  have hhold := (inSection_concurrent hc).mp hin
  have hsame : ∀ j, M.InSection { s with shared := σ', threads := s.threads.set i ⟨r, p⟩ } j ↔
      s.holder = some j := fun _ => inSection_concurrent hc
  refine ⟨H.tids_step ht hes, ?_, ?_, ?_, fun hf => absurd hc (by simp [hf])⟩
  -- the lock stays with `i`: the section of `i` is the only one
  · intro hn
    exact absurd ((hsame i).mpr hhold) (hn i)
  · intro j hj
    have := (hsame j).mp hj
    simp only [hhold, Option.some.injEq] at this
    subst this
    exact ⟨⟨r, p⟩, List.getElem?_set_self hi, hA⟩
  · intro j t hj hn
    rcases getElem?_set_cases hj with ⟨rfl, -⟩ | ⟨hji, hj⟩
    · exact absurd ((hsame _).mpr hhold) hn
    · exact H.out_step V hji hj
        (fun hs => hn ((hsame j).mpr ((inSection_concurrent hc).mp hs))) hes

/-- The one thread that is being served goes on to `p`. -/
theorem Holds.inside_sequential (V : O.Valid) (hc : M.concurrent = false)
    {h : List (Event S σ Req Env)} {s : Sys S σ Req Resp} (H : O.Holds h s) {i : Nat} {r : Req}
    {p q : Prog S Resp} (ht : s.threads[i]? = some ⟨r, q⟩) (hq : q.isDone = false)
    {es : List (Event S σ Req Env)} {σ' : σ} (hes : Recorded i s.shared σ' es)
    (hA : O.A i r p ⟨h ++ es, σ'⟩) :
    O.Holds (h ++ es) { s with shared := σ', threads := s.threads.set i ⟨r, p⟩ } := by
  have hi : i < s.threads.length := (List.getElem?_eq_some_iff.mp ht).1
  have hlen : i + 1 = s.threads.length := H.alone hc i _ ht hq
  -- once it is done it has left the section
  have hleft : p.isDone = true → ∃ a, p = .done a ∧ O.J ⟨h ++ es, σ'⟩ ∧
      O.Post i r a ⟨h ++ es, σ'⟩ := by
    intro hd
    obtain ⟨a, rfl⟩ := Prog.isDone_iff.mp hd
    exact ⟨a, rfl, (V.section_done hA).2⟩
  have hdone : ¬ M.InSection { s with shared := σ', threads := s.threads.set i ⟨r, p⟩ } i →
      p.isDone = true := by
    intro hn
    rcases Bool.eq_false_or_eq_true p.isDone with hd | hd
    · exact hd
    · exact absurd ((inSection_sequential hc).mpr ⟨⟨r, p⟩, List.getElem?_set_self hi, hd⟩) hn
  refine ⟨H.tids_step ht hes, ?_, ?_, ?_, ?_⟩
  · intro hn
    obtain ⟨a, -, hJ, -⟩ := hleft (hdone (hn i))
    exact hJ
  · intro j hj
    obtain ⟨t, hj, hd⟩ := (inSection_sequential hc).mp hj
    rcases getElem?_set_cases hj with ⟨rfl, rfl⟩ | ⟨hji, hj'⟩
    · exact ⟨_, hj, hA⟩
    · have := H.alone hc j t hj' hd
      omega
  · intro j t hj hn
    rcases getElem?_set_cases hj with ⟨rfl, rfl⟩ | ⟨hji, hj'⟩
    · obtain ⟨a, ha, -, hP⟩ := hleft (hdone hn)
      exact .inl ⟨a, ha, hP⟩
    · refine H.out_step V hji hj' ?_ hes
      intro hs
      obtain ⟨t', ht', hd⟩ := (inSection_sequential hc).mp hs
      have := H.alone hc j t' ht' hd
      omega
  · intro _ j t hj hd
    rcases getElem?_set_cases hj with ⟨rfl, rfl⟩ | ⟨hji, hj'⟩
    · simpa using hlen
    · have := H.alone hc j t hj' hd
      omega

/-- An operation of the thread that is in its section. -/
theorem Holds.op_section (V : O.Valid) {h : List (Event S σ Req Env)} {s : Sys S σ Req Resp}
    (H : O.Holds h s) {i : Nat} {r : Req} {o : S.Op} {k : S.Ret o → Prog S Resp} {c : Choice}
    {v : S.Ret o} {σ' : σ} (ht : s.threads[i]? = some ⟨r, .op o k⟩) (hin : M.InSection s i)
    (hx : M.exec o s.shared c = some (v, σ')) :
    O.Holds (h ++ if M.observed o then [.op i r o v s.shared σ'] else [])
      { s with shared := σ', threads := s.threads.set i ⟨r, k v⟩ } := by
  obtain ⟨t, ht', hA⟩ := H.sect i hin
  obtain rfl := Option.some.inj (ht.symm.trans ht')
  -- an operation that is not observed leaves history and resource alone
  have hA' : O.A i r (k v)
      ⟨h ++ if M.observed o then [.op i r o v s.shared σ'] else [], σ'⟩ := by
    have := V.section_op hA hx
    by_cases ho : M.observed o = true
    · simpa [ho, World.push] using this
    · obtain rfl := V.quiet (by simpa using ho) hx
      simpa [ho] using this
  have hes := recorded_op V (i := i) (r := r) hx
  rcases Bool.eq_false_or_eq_true M.concurrent with hc | hc
  · exact H.inside_concurrent V hc ht hin hes hA'
  · exact H.inside_sequential V hc ht rfl hes hA'

/-- An operation of a thread that is out of its section: it reads only. -/
theorem Holds.op_out (V : O.Valid) {h : List (Event S σ Req Env)} {s : Sys S σ Req Resp}
    (H : O.Holds h s) {i : Nat} {r : Req} {o : S.Op} {k : S.Ret o → Prog S Resp} {c : Choice}
    {v : S.Ret o} {σ' : σ} (ht : s.threads[i]? = some ⟨r, .op o k⟩) (hout : ¬ M.InSection s i)
    (hx : M.exec o s.shared c = some (v, σ')) :
    O.Holds (h ++ if M.observed o then [.op i r o v s.shared σ'] else [])
      { s with shared := σ', threads := s.threads.set i ⟨r, k v⟩ } := by
  rcases H.out i _ ht hout with ⟨a, ha, -⟩ | ⟨hc, hE, hF⟩
  · cases ha
  -- outside its section a thread only reads what nobody observes
  cases hE with
  | read ho hk =>
      obtain rfl := V.quiet ho hx
      have hE' := hk _ c v _ (H.always V) hx
      have hsame : ∀ j, M.InSection { s with threads := s.threads.set i ⟨r, k v⟩ } j ↔
          M.InSection s j := by
        intro j
        rw [inSection_concurrent hc, inSection_concurrent hc]
      simp only [ho, Bool.false_eq_true, if_false, List.append_nil]
      refine ⟨?_, ?_, ?_, ?_, fun hf => absurd hc (by simp [hf])⟩
      · intro ev hmem j hj
        rw [List.length_set]
        exact H.tids ev hmem j hj
      · intro hn
        exact H.rest fun j hj => hn j ((hsame j).mpr hj)
      · intro j hj
        obtain ⟨t, ht', hA⟩ := H.sect j ((hsame j).mp hj)
        refine ⟨t, ?_, hA⟩
        rw [List.getElem?_set_ne]
        · exact ht'
        · rintro rfl
          exact hout ((hsame _).mp hj)
      · intro j t hj hn
        rcases getElem?_set_cases hj with ⟨rfl, rfl⟩ | ⟨hji, hj⟩
        · exact .inr ⟨hc, hE', hF⟩
        · exact H.out j t hj fun hs => hn ((hsame j).mpr hs)

/-- The environment keeps what the threads rely on. -/
theorem Holds.env (V : O.Valid) {h : List (Event S σ Req Env)} {s : Sys S σ Req Resp}
    (H : O.Holds h s) {e : Env} {σ' : σ} (he : M.env e s.shared = some σ') :
    O.Holds (h ++ [.env e s.shared σ']) { s with shared := σ' } := by
  have hsame : ∀ i, M.InSection { s with shared := σ' } i ↔ M.InSection s i :=
    fun _ => Iff.rfl
  have hev : ∀ i, (Event.env e s.shared σ' : Event S σ Req Env).tid ≠ some i := by simp
  refine ⟨?_, ?_, ?_, ?_, H.alone⟩
  · intro ev hmem i hi
    rcases List.mem_append.mp hmem with hmem | hmem
    · exact H.tids ev hmem i hi
    · rw [List.mem_singleton.mp hmem] at hi
      exact absurd hi (hev i)
  · intro hn
    exact V.rest_env (H.rest fun i hi => hn i ((hsame i).mpr hi)) he
  · intro i hi
    obtain ⟨t, ht, hA⟩ := H.sect i ((hsame i).mp hi)
    exact ⟨t, ht, V.section_env hA he⟩
  · intro i t ht hn
    rcases H.out i t ht fun hs => hn ((hsame i).mpr hs) with ⟨a, ha, hP⟩ | ⟨hc, hE, hF⟩
    · exact .inl ⟨a, ha, V.post_push hP (hev i)⟩
    · exact .inr ⟨hc, hE, hF.push (hev i)⟩

/-- At the start there is a resource invariant and nobody to use it. -/
theorem Holds.init {s₀ : σ} (hJ : O.J ⟨[], s₀⟩) : O.Holds [] (Machine.init s₀) := by
  refine ⟨?_, fun _ => hJ, ?_, ?_, ?_⟩
  · intro ev hmem
    cases hmem
  · intro i hi
    unfold Machine.InSection at hi
    split at hi
    · cases hi
    · obtain ⟨t, ht, -⟩ := hi
      cases ht
  · intro i t ht
    cases ht
  · intro _ i t ht
    cases ht

/-- A valid outline holds in every state of every interleaving. -/
theorem holds_of_run (V : O.Valid) {s₀ : σ} (hJ : O.J ⟨[], s₀⟩)
    {h : List (Event S σ Req Env)} {s : Sys S σ Req Resp} (run : M.Run (Machine.init s₀) h s) :
    O.Holds h s := by
  refine Machine.Run.induct (P := O.Holds) (.init hJ) ?_ run
  intro h s l es s' H hs
  rcases Machine.step_cases hs with
    ⟨r, hm, rfl, rfl⟩ | ⟨i, r, k, ht, hfree, rfl, rfl⟩ | ⟨i, r, k, ht, rfl, rfl⟩ |
    ⟨i, r, o, k, c, v, σ', ht, hx, rfl, rfl⟩ | ⟨e, σ', he, rfl, rfl⟩
  · rw [List.append_nil]
    rcases Bool.eq_false_or_eq_true M.concurrent with hc | hc
    · exact H.spawn_concurrent V hc r
    · exact H.spawn_sequential V hc r (hm.resolve_left (by simp [hc]))
  · rw [List.append_nil]
    exact H.lock V ht hfree
  · rw [List.append_nil]
    exact H.unlock V ht
  -- an operation: inside the section it may write, outside it only reads
  · by_cases hin : M.InSection s i
    · exact H.op_section V ht hin hx
    · exact H.op_out V ht hin hx
  · exact H.env V he

end Outline

end Webstore.Sched
