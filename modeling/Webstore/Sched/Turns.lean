/-
  Webstore.Sched.Turns

  The proof rule for requests that are served one after the other.  A `Turns`
  says what holds between two requests, what holds of the one that is served,
  at each point of its program, and what holds of an answer once it is given;
  a ghost value carries what has happened so far.  `Turns.Valid` lists what is
  to be shown, one step at a time, and `Turns.Valid.run` is what follows for
  every run.
-/
import Webstore.Lists
import Webstore.Sched.Machine

namespace Webstore.Sched

variable {S : Sig} {σ Req Resp Env Choice G : Type}

/-- What is claimed between two requests, of which the first `n` have answered;
    of request `i` and what it has still to do; and of the answer to request
    `i`.  `Goes n g g'`: from `g` to `g'` only the requests from `n` on have
    done something. -/
structure Turns (S : Sig) (σ Req Resp G : Type) where
  Rest : G → Nat → σ → Prop
  In : G → Nat → Req → Prog S Resp → σ → Prop
  Post : G → Nat → Req → Resp → Prop
  Goes : Nat → G → G → Prop

namespace Turns

variable (T : Turns S σ Req Resp G) (M : Machine S σ Req Resp Env Choice)

/-- What has to be shown, one step at a time. -/
structure Valid : Prop where
  turns : M.concurrent = false
  refl : ∀ n g, T.Goes n g g
  trans : ∀ {m n g g' g''}, m ≤ n → T.Goes m g g' → T.Goes n g' g'' → T.Goes m g g''
  keeps : ∀ {i n g g' r d}, T.Goes n g g' → i < n → T.Post g i r d → T.Post g' i r d
  start : ∀ {g n a} r, T.Rest g n a → T.In g n r (M.body r) a
  answer : ∀ {g i r d a}, T.In g i r (.done d) a → T.Rest g (i + 1) a ∧ T.Post g i r d
  op : ∀ {g i r o k a c v b}, T.In g i r (.op o k) a → M.exec o a c = some (v, b) →
    ∃ g', T.In g' i r (k v) b ∧ T.Goes i g g'
  lock : ∀ {g i r k a}, T.In g i r (.lock k) a → T.In g i r k a
  unlock : ∀ {g i r k a}, T.In g i r (.unlock k) a → T.In g i r k a
  rest_env : ∀ {g n a e b}, T.Rest g n a → M.env e a = some b →
    ∃ g', T.Rest g' n b ∧ T.Goes n g g'
  in_env : ∀ {g i r p a e b}, T.In g i r p a → M.env e a = some b →
    ∃ g', T.In g' i r p b ∧ T.Goes i g g'

/-- The answers of these threads are right. -/
def Answers (g : G) (ts : List (Thread S Req Resp)) : Prop :=
  ∀ i r d, ts[i]? = some ⟨r, .done d⟩ → T.Post g i r d

/-- The threads `ts` have answered, and there is at most one more. -/
structure Holds (g : G) (s : Sys S σ Req Resp) (ts : List (Thread S Req Resp)) : Prop where
  done : ∀ t ∈ ts, t.code.isDone = true
  answers : T.Answers g ts
  rest : s.threads = ts ∧ T.Rest g ts.length s.shared ∨
    ∃ r p, p.isDone = false ∧ s.threads = ts ++ [⟨r, p⟩] ∧ T.In g ts.length r p s.shared

variable {T M} {g g' : G} {ts : List (Thread S Req Resp)} {s s' : Sys S σ Req Resp}

theorem Answers.goes (h : T.Answers g ts) (V : T.Valid M) (hg : T.Goes ts.length g g') :
    T.Answers g' ts :=
  fun i r d ht => V.keeps hg (List.getElem?_eq_some_iff.mp ht).1 (h i r d ht)

/-- A thread that has not answered is the one that is served. -/
theorem Holds.last (H : T.Holds g s ts) {i : Nat} {t : Thread S Req Resp}
    (ht : s.threads[i]? = some t) (hnot : t.code.isDone = false) :
    i = ts.length ∧ s.threads = ts ++ [t] ∧ T.In g ts.length t.req t.code s.shared := by
  rcases H.rest with ⟨hthreads, -⟩ | ⟨r, p, -, hthreads, hin⟩
  · rw [hthreads] at ht
    rw [H.done t (List.mem_of_getElem? ht)] at hnot
    cases hnot
  · rw [hthreads] at ht
    rcases getElem?_append_singleton ht with ht | ⟨rfl, rfl⟩
    · rw [H.done t (List.mem_of_getElem? ht)] at hnot
      cases hnot
    · exact ⟨rfl, hthreads, hin⟩

/-- Nobody is served while all have answered. -/
theorem Holds.all (H : T.Holds g s ts) (hall : ∀ t ∈ s.threads, t.code.isDone = true) :
    s.threads = ts ∧ T.Rest g ts.length s.shared := by
  rcases H.rest with h | ⟨r, p, hnot, hthreads, -⟩
  · exact h
  · rw [hall ⟨r, p⟩ (by simp [hthreads])] at hnot
    cases hnot

/-- The thread that is served has come to `p`; that may be its answer. -/
theorem Valid.settle (V : T.Valid M) (hdone : ∀ t ∈ ts, t.code.isDone = true)
    (hans : T.Answers g ts) {r : Req} {p : Prog S Resp} (hp : T.In g ts.length r p s.shared)
    (hthreads : s.threads = ts ++ [⟨r, p⟩]) : ∃ ts', T.Holds g s ts' ∧ ts <+: ts' := by
  cases hd : p.isDone with
  | false => exact ⟨ts, ⟨hdone, hans, .inr ⟨r, p, hd, hthreads, hp⟩⟩, List.prefix_refl _⟩
  | true =>
      obtain ⟨d, rfl⟩ := Prog.isDone_iff.mp hd
      obtain ⟨hrest, hpost⟩ := V.answer hp
      refine ⟨ts ++ [⟨r, .done d⟩], ⟨?_, ?_, .inl ⟨hthreads, ?_⟩⟩, List.prefix_append _ _⟩
      · intro t ht
        rcases List.mem_append.mp ht with ht | ht
        · exact hdone t ht
        · rw [List.mem_singleton.mp ht]
          rfl
      · intro i r' d' ht
        rcases getElem?_append_singleton ht with ht | ⟨rfl, heq⟩
        · exact hans i r' d' ht
        · cases heq
          exact hpost
      · rw [List.length_append, List.length_singleton]
        exact hrest

/-- One step: at most the thread that is served goes on. -/
theorem Valid.step (V : T.Valid M) (H : T.Holds g s ts) {l : Label Req Env Choice}
    {es : List (Event S σ Req Env)} (hs : M.step s l = some (es, s')) :
    ∃ g' ts', T.Holds g' s' ts' ∧ T.Goes ts.length g g' ∧ ts <+: ts' := by
  have hset : ∀ t t' : Thread S Req Resp, (ts ++ [t]).set ts.length t' = ts ++ [t'] := by
    intro t t'
    rw [List.set_append_right _ _ (Nat.le_refl _), Nat.sub_self, List.set_cons_zero]
  rcases Machine.step_cases hs with
    ⟨r, hspawn, rfl, rfl⟩ | ⟨i, r, k, ht, -, rfl, rfl⟩ | ⟨i, r, k, ht, rfl, rfl⟩ |
    ⟨i, r, o, k, c, v, b, ht, hx, rfl, rfl⟩ | ⟨e, b, he, rfl, rfl⟩
  -- a request comes in: all others have answered
  · have hall : ∀ t ∈ s.threads, t.code.isDone = true :=
      hspawn.resolve_left (by simp [V.turns])
    rcases H.rest with ⟨hthreads, hrest⟩ | ⟨r', p, hnot, hthreads, -⟩
    · obtain ⟨ts', H', hpre⟩ := V.settle (s := { s with threads := s.threads ++ [⟨r, M.body r⟩] })
        H.done H.answers (V.start r hrest) (by rw [← hthreads])
      exact ⟨g, ts', H', V.refl _ g, hpre⟩
    · rw [hall ⟨r', p⟩ (by simp [hthreads])] at hnot
      cases hnot
  · obtain ⟨rfl, hthreads, hin⟩ := H.last ht rfl
    obtain ⟨ts', H', hpre⟩ := V.settle
      (s := { s with holder := some ts.length, threads := s.threads.set ts.length ⟨r, k⟩ })
      H.done H.answers (V.lock hin) (by rw [hthreads, hset])
    exact ⟨g, ts', H', V.refl _ g, hpre⟩
  · obtain ⟨rfl, hthreads, hin⟩ := H.last ht rfl
    obtain ⟨ts', H', hpre⟩ := V.settle
      (s := { s with holder := none, threads := s.threads.set ts.length ⟨r, k⟩ })
      H.done H.answers (V.unlock hin) (by rw [hthreads, hset])
    exact ⟨g, ts', H', V.refl _ g, hpre⟩
  · obtain ⟨rfl, hthreads, hin⟩ := H.last ht rfl
    obtain ⟨g', hin', hgoes⟩ := V.op hin hx
    obtain ⟨ts', H', hpre⟩ := V.settle
      (s := { s with shared := b, threads := s.threads.set ts.length ⟨r, k v⟩ })
      H.done (H.answers.goes V hgoes) hin' (by rw [hthreads, hset])
    exact ⟨g', ts', H', hgoes, hpre⟩
  · rcases H.rest with ⟨hthreads, hrest⟩ | ⟨r, p, hnot, hthreads, hin⟩
    · obtain ⟨g', hrest', hgoes⟩ := V.rest_env hrest he
      exact ⟨g', ts, ⟨H.done, H.answers.goes V hgoes, .inl ⟨hthreads, hrest'⟩⟩, hgoes,
        List.prefix_refl _⟩
    · obtain ⟨g', hin', hgoes⟩ := V.in_env hin he
      exact ⟨g', ts, ⟨H.done, H.answers.goes V hgoes, .inr ⟨r, p, hnot, hthreads, hin'⟩⟩, hgoes,
        List.prefix_refl _⟩

/-- What is claimed holds after every run, and who has answered has nothing more
    to do with it. -/
theorem Valid.run (V : T.Valid M) (H : T.Holds g s ts) {h : List (Event S σ Req Env)}
    (run : M.Run s h s') : ∃ g' ts', T.Holds g' s' ts' ∧ T.Goes ts.length g g' ∧ ts <+: ts' := by
  induction run with
  | start => exact ⟨g, ts, H, V.refl _ g, List.prefix_refl _⟩
  | step _ hs ih =>
      obtain ⟨g₁, ts₁, H₁, hgoes₁, hpre₁⟩ := ih
      obtain ⟨g₂, ts₂, H₂, hgoes₂, hpre₂⟩ := V.step H₁ hs
      exact ⟨g₂, ts₂, H₂, V.trans hpre₁.length_le hgoes₁ hgoes₂, hpre₁.trans hpre₂⟩

end Turns

end Webstore.Sched
