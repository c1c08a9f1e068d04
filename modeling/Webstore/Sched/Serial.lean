/-
  Webstore.Sched.Serial

  Threads whose work is one section behind some reading can as well be served
  one after the other.

    * `Prog.OneSection R`: the program makes `R` operations only, and then
      answers or takes the mutex; what it does with the mutex ends in its
      answer, given with the mutex.
    * `Calm M I R`: while `I` holds, an `R` operation tells the same whenever
      it is made, and `I` does not come back once it is lost.
    * `Calm.serializable`: what the threads of a run have answered, the
      resource and the history are those of a run of `M.serial`, which takes
      one request after the other and has no mutex.  Who had answered before
      another request came is served before it there, too.

  In the serial run a thread has its place where it gives the mutex back, or
  where its last reading is, if it never takes it.
-/
import Webstore.Lists
import Webstore.Sched.Machine

namespace Webstore.Sched

variable {S : Sig} {σ Req Resp Env Choice α β : Type}

/-! ## Programs -/

namespace Prog

/-- The program without the mutex. -/
def unlocked : Prog S α → Prog S α
  | .done a => .done a
  | .lock k => k.unlocked
  | .unlock k => k.unlocked
  | .op o k => .op o fun v => (k v).unlocked

/-- Without their locks, programs still follow one another. -/
theorem unlocked_bind (p : Prog S α) (f : α → Prog S β) :
    (p >>= f).unlocked = (p.unlocked >>= fun a => (f a).unlocked) := by
  induction p with
  | done a => rfl
  | lock k ih => exact ih
  | unlock k ih => exact ih
  | op o k ih => exact congrArg (Prog.op o) (funext ih)

/-- With the mutex: operations up to giving it back, and then the answer. -/
def Section : Prog S α → Prop
  | .done _ => False
  | .lock _ => False
  | .unlock k => ∃ a, k = .done a
  | .op _ k => ∀ v, (k v).Section

/-- Without it: `R` operations up to the answer or a section. -/
def OneSection (R : S.Op → Prop) : Prog S α → Prop
  | .done _ => True
  | .lock k => k.Section
  | .unlock _ => False
  | .op o k => R o ∧ ∀ v, (k v).OneSection R

/-- A section may hand on a value at its end. -/
theorem Section.bind_done {p : Prog S α} (h : p.Section) (f : α → β) :
    (p >>= fun a => .done (f a)).Section := by
  induction p with
  | done a => exact h.elim
  | lock k ih => exact h.elim
  | unlock k ih =>
      obtain ⟨a, rfl⟩ := h
      exact ⟨f a, rfl⟩
  | op o k ih => exact fun v => ih v (h v)

/-- So may a program of one section. -/
theorem OneSection.bind_done {R : S.Op → Prop} {p : Prog S α} (h : p.OneSection R) (f : α → β) :
    (p >>= fun a => .done (f a)).OneSection R := by
  induction p with
  | done a => trivial
  | lock k ih => exact Section.bind_done h f
  | unlock k ih => exact h.elim
  | op o k ih => exact ⟨h.1, fun v => ih v (h.2 v)⟩

theorem Section.not_done {p : Prog S α} (h : p.Section) : p.isDone = false := by
  cases p with
  | done a => exact h.elim
  | _ => rfl

end Prog

/-! ## Runs -/

namespace Event

/-- The event, whichever thread it belongs to. -/
def unnamed : Event S σ Req Env → Event S σ Req Env
  | .op _ r o v a b => .op 0 r o v a b
  | .env e a b => .env e a b

end Event

/-- The thread without the mutex. -/
def Thread.unlocked (t : Thread S Req Resp) : Thread S Req Resp := ⟨t.req, t.code.unlocked⟩

namespace Sys

/-- The threads that have answered. -/
def answered (s : Sys S σ Req Resp) : List (Thread S Req Resp) :=
  s.threads.filter (·.code.isDone)

/-- The thread that has the mutex. -/
def inside (s : Sys S σ Req Resp) : List (Thread S Req Resp) :=
  (s.holder.bind (s.threads[·]?)).toList

end Sys

namespace Machine

variable (M : Machine S σ Req Resp Env Choice)

/-- The requests one after the other, without the mutex. -/
def serial : Machine S σ Req Resp Env Choice where
  body := fun r => (M.body r).unlocked
  exec := M.exec
  env := M.env
  observed := M.observed
  concurrent := false

/-- While `I` holds, `R` operations read what nobody changes; once lost, `I`
    stays lost. -/
structure Calm (I : σ → Prop) (R : S.Op → Prop) : Prop where
  read : ∀ {o a c v b}, R o → I a → M.exec o a c = some (v, b) →
    M.observed o = false ∧ b = a ∧ ∀ a', I a' → ∃ c', M.exec o a' c' = some (v, a')
  op_back : ∀ {o a c v b}, M.exec o a c = some (v, b) → I b → I a
  env_back : ∀ {e a b}, M.env e a = some b → I b → I a

/-- One more request, taken up when all others have answered, comes to `p` and
    leaves these events. -/
def Replays (r : Req) (a : σ) (es : List (Event S σ Req Env)) (p : Prog S Resp) (b : σ) : Prop :=
  ∀ ts : List (Thread S Req Resp), (∀ t ∈ ts, t.code.isDone = true) →
    ∃ g, M.serial.Run ⟨a, none, ts⟩ g ⟨b, none, ts ++ [⟨r, p⟩]⟩ ∧
      g.map Event.unnamed = es.map Event.unnamed

variable {M} {I : σ → Prop} {R : S.Op → Prop} {r : Req} {a b b' : σ}
  {es : List (Event S σ Req Env)}

theorem replays_start (r : Req) (a : σ) : M.Replays r a [] (M.body r).unlocked a := by
  intro ts hts
  have hs : M.serial.step ⟨a, none, ts⟩ (.spawn r) =
      some ([], ⟨a, none, ts ++ [⟨r, (M.body r).unlocked⟩]⟩) :=
    if_pos (List.all_eq_true.mpr hts)
  exact ⟨_, .step .start hs, rfl⟩

/-- One more operation is replayed on the other machine. -/
theorem Replays.op {o : S.Op} {k : S.Ret o → Prog S Resp} {c : Choice} {v : S.Ret o}
    (h : M.Replays r a es (.op o k) b) (hx : M.exec o b c = some (v, b')) (i : Nat) :
    M.Replays r a (es ++ if M.observed o then [.op i r o v b b'] else []) (k v) b' := by
  intro ts hts
  obtain ⟨g, hrun, hg⟩ := h ts hts
  have hs : M.serial.step ⟨b, none, ts ++ [⟨r, .op o k⟩]⟩ (.act ts.length c) =
      some (if M.observed o then [.op ts.length r o v b b'] else [],
        ⟨b', none, ts ++ [⟨r, k v⟩]⟩) := by
    have hx' : M.serial.exec o b c = some (v, b') := hx
    simp only [step, List.getElem?_concat_length, Option.bind_some, stepThread, hx',
      Option.map_some, List.set_append_right ts.length _ (Nat.le_refl _), Nat.sub_self,
      List.set_cons_zero]
    rfl
  refine ⟨_, .step hrun hs, ?_⟩
  rw [List.map_append, List.map_append, hg]
  split <;> rfl

/-- So is a step of the environment. -/
theorem Replays.env {p : Prog S Resp} {e : Env} (h : M.Replays r a es p b)
    (he : M.env e b = some b') : M.Replays r a (es ++ [.env e b b']) p b' := by
  intro ts hts
  obtain ⟨g, hrun, hg⟩ := h ts hts
  have hs : M.serial.step ⟨b, none, ts ++ [⟨r, p⟩]⟩ (.env e) =
      some ([.env e b b'], ⟨b', none, ts ++ [⟨r, p⟩]⟩) := by
    have he' : M.serial.env e b = some b' := he
    simp only [step, he', Option.map_some]
  refine ⟨_, .step hrun hs, ?_⟩
  rw [List.map_append, List.map_append, hg]

/-- The run of `M.serial` has come to where the resource is `c` and `ts` have
    answered: all that have answered in `s`.  Of the others the one with the
    mutex can be replayed from there, and the rest from anywhere. -/
structure Serialized (M : Machine S σ Req Resp Env Choice) (I : σ → Prop) (R : S.Op → Prop)
    (h : List (Event S σ Req Env)) (s : Sys S σ Req Resp) (g : List (Event S σ Req Env)) (c : σ)
    (ts : List (Thread S Req Resp)) : Prop where
  done : ∀ t ∈ ts, t.code.isDone = true
  answered : ts.Perm s.answered
  outside : ∀ i t, s.threads[i]? = some t → s.holder ≠ some i →
    t.code.OneSection R ∧
      (t.code.isDone = false → ∀ a, I a → M.Replays t.req a [] t.code.unlocked a)
  rest : s.holder = none → c = s.shared ∧ g.map Event.unnamed = h.map Event.unnamed
  inside : ∀ i, s.holder = some i → I c ∧ ∃ t es, s.threads[i]? = some t ∧ t.code.Section ∧
    M.Replays t.req c es t.code.unlocked s.shared ∧
      (g ++ es).map Event.unnamed = h.map Event.unnamed

section
variable {h g : List (Event S σ Req Env)} {s s' : Sys S σ Req Resp} {c : σ}
  {ts : List (Thread S Req Resp)}

/-- Before anybody comes, there is nothing to put in order. -/
theorem serialized_init (a : σ) : M.Serialized I R [] (init a) [] a [] where
  done := by simp
  answered := .refl _
  outside := by
    intro i t ht
    cases ht
  rest := fun _ => ⟨rfl, rfl⟩
  inside := by
    intro i hi
    cases hi

/-- The serial state satisfies the invariant: it is the state of the server, or that
    in which the thread inside entered its section. -/
theorem Serialized.calm (H : M.Serialized I R h s g c ts) (hI : I s.shared) : I c := by
  cases hh : s.holder with
  | none => exact (H.rest hh).1 ▸ hI
  | some i => exact (H.inside i hh).1

/-- A thread outside comes to `t`, or is started as `t`: if `t` is an answer,
    it is served now. -/
theorem Serialized.advance (H : M.Serialized I R h s g c ts) (hI : I c)
    {t : Thread S Req Resp} (ht : t.code.OneSection R)
    (hreplay : ∀ a, I a → M.Replays t.req a [] t.code.unlocked a)
    (threads : List (Thread S Req Resp))
    (hkeep : ∀ i, s.holder = some i → threads[i]? = s.threads[i]?)
    (hnew : ∀ (i : Nat) (u : Thread S Req Resp), threads[i]? = some u →
      u = t ∨ s.threads[i]? = some u)
    (hans : (threads.filter (·.code.isDone)).Perm
      (s.answered ++ if t.code.isDone then [t] else [])) :
    ∃ g' ts', M.serial.Run ⟨c, none, ts⟩ g' ⟨c, none, ts'⟩ ∧
      M.Serialized I R h { s with threads := threads } (g ++ g') c ts' := by
  -- the threads outside are those of before and `t`
  have hout : ∀ (i : Nat) (u : Thread S Req Resp), threads[i]? = some u → s.holder ≠ some i →
      u.code.OneSection R ∧
        (u.code.isDone = false → ∀ a, I a → M.Replays u.req a [] u.code.unlocked a) := by
    intro i u hu hne
    rcases hnew i u hu with rfl | hold
    · exact ⟨ht, fun _ => hreplay⟩
    · exact H.outside i u hold hne
  -- the thread inside is not touched
  have hin : ∀ i, s.holder = some i → I c ∧
      ∃ (u : Thread S Req Resp) (es : List (Event S σ Req Env)), threads[i]? = some u ∧
        u.code.Section ∧ M.Replays u.req c es u.code.unlocked s.shared ∧
          (g ++ es).map Event.unnamed = h.map Event.unnamed := by
    intro i hi
    rw [hkeep i hi]
    exact H.inside i hi
  cases hd : t.code.isDone with
  | true =>
      -- `t` has answered, and is served now
      obtain ⟨d, hcode⟩ := Prog.isDone_iff.mp hd
      obtain ⟨g', hrun, hg'⟩ := hreplay c hI ts H.done
      obtain rfl : g' = [] := by simpa using hg'
      rw [hcode] at hrun
      have heq : (⟨t.req, .done d⟩ : Thread S Req Resp) = t := by rw [← hcode]
      refine ⟨[], ts ++ [t], heq ▸ hrun, ?_⟩
      rw [List.append_nil]
      rw [hd, if_pos rfl] at hans
      refine ⟨?_, (H.answered.append_right _).trans hans.symm, hout, H.rest, hin⟩
      intro u hu
      rcases List.mem_append.mp hu with hu | hu
      · exact H.done u hu
      · rw [List.mem_singleton.mp hu]
        exact hd
  | false =>
      -- `t` has its turn later
      rw [hd, if_neg (by simp), List.append_nil] at hans
      refine ⟨[], ts, .start, ?_⟩
      rw [List.append_nil]
      exact ⟨H.done, H.answered.trans hans.symm, hout, H.rest, hin⟩

/-- A thread takes the mutex. -/
theorem Serialized.lock (H : M.Serialized I R h s g c ts) (hI : I s.shared) {i : Nat}
    {k : Prog S Resp} (ht : s.threads[i]? = some ⟨r, .lock k⟩) (hfree : s.holder = none) :
    M.Serialized I R h { s with holder := some i, threads := s.threads.set i ⟨r, k⟩ } g c ts := by
  have hne : s.holder ≠ some i := by
    rw [hfree]
    nofun
  obtain ⟨hsec, hreplay⟩ := H.outside i _ ht hne
  have hk : k.Section := hsec
  obtain ⟨hc, hg⟩ := H.rest hfree
  refine ⟨H.done, ?_, ?_, nofun, ?_⟩
  · rw [Sys.answered, filter_set_neg (p := fun t => t.code.isDone) ht rfl hk.not_done]
    exact H.answered
  · intro j t hj hne
    rcases getElem?_set_cases hj with ⟨rfl, -⟩ | ⟨-, hj⟩
    · exact absurd rfl hne
    · exact H.outside j t hj (by simp [hfree])
  · intro j hj
    obtain rfl : i = j := Option.some.inj hj
    refine ⟨H.calm hI, ⟨r, k⟩, [], ?_, hk, ?_, by rw [List.append_nil, hg]⟩
    · rw [List.getElem?_set_self (List.getElem?_eq_some_iff.mp ht).1]
    · exact hc ▸ hreplay rfl c (H.calm hI)

/-- The thread that has the mutex gives it back: it is served now. -/
theorem Serialized.unlock (H : M.Serialized I R h s g c ts) {i : Nat} {k : Prog S Resp}
    (ht : s.threads[i]? = some ⟨r, .unlock k⟩) :
    ∃ g' ts', M.serial.Run ⟨c, none, ts⟩ g' ⟨s.shared, none, ts'⟩ ∧
      M.Serialized I R h { s with holder := none, threads := s.threads.set i ⟨r, k⟩ } (g ++ g')
        s.shared ts' := by
  by_cases hh : s.holder = some i
  · -- its turn is now: what it did inside is replayed behind the others
    obtain ⟨-, t, es, hti, hsec, hreplay, hg⟩ := H.inside i hh
    obtain rfl : t = ⟨r, .unlock k⟩ := Option.some.inj (hti.symm.trans ht)
    obtain ⟨d, rfl⟩ := hsec
    obtain ⟨g', hrun, hg'⟩ := hreplay ts H.done
    refine ⟨g', _, hrun, ?_, ?_, ?_, fun _ => ⟨rfl, ?_⟩, nofun⟩
    · intro u hu
      rcases List.mem_append.mp hu with hu | hu
      · exact H.done u hu
      · rw [List.mem_singleton.mp hu]
        rfl
    · have hset := filter_set_pos (p := fun t => t.code.isDone) ht rfl
        (b := (⟨r, .done d⟩ : Thread S Req Resp)) rfl
      exact (H.answered.append_right _).trans hset.symm
    · intro j u hj _
      rcases getElem?_set_cases hj with ⟨-, rfl⟩ | ⟨hne, hj⟩
      · exact ⟨trivial, nofun⟩
      · exact H.outside j u hj (by rw [hh]; exact fun heq => hne (Option.some.inj heq).symm)
    · rw [List.map_append, hg', ← List.map_append, hg]
  · exact (H.outside i _ ht hh).1.elim

/-- The thread that has the mutex makes an operation. -/
theorem Serialized.op (H : M.Serialized I R h s g c ts) {i : Nat} (hh : s.holder = some i)
    {o : S.Op} {k : S.Ret o → Prog S Resp} (ht : s.threads[i]? = some ⟨r, .op o k⟩) {ch : Choice}
    {v : S.Ret o} (hx : M.exec o s.shared ch = some (v, b)) :
    M.Serialized I R (h ++ if M.observed o then [.op i r o v s.shared b] else [])
      { s with shared := b, threads := s.threads.set i ⟨r, k v⟩ } g c ts := by
  obtain ⟨hc, t, es, hti, hsec, hreplay, hg⟩ := H.inside i hh
  obtain rfl : t = ⟨r, .op o k⟩ := Option.some.inj (hti.symm.trans ht)
  have hk : (k v).Section := hsec v
  refine ⟨H.done, ?_, ?_, fun hnone => by simp [hh] at hnone, ?_⟩
  · rw [Sys.answered, filter_set_neg (p := fun t => t.code.isDone) ht rfl hk.not_done]
    exact H.answered
  · intro j u hj hne
    rcases getElem?_set_cases hj with ⟨rfl, -⟩ | ⟨-, hj⟩
    · exact absurd hh hne
    · exact H.outside j u hj hne
  · intro j hj
    obtain rfl : i = j := Option.some.inj (hh.symm.trans hj)
    refine ⟨hc, ⟨r, k v⟩, _, ?_, hk, hreplay.op hx i, ?_⟩
    · rw [List.getElem?_set_self (List.getElem?_eq_some_iff.mp ht).1]
    · rw [← List.append_assoc, List.map_append, hg, List.map_append]

/-- The environment acts. -/
theorem Serialized.env (H : M.Serialized I R h s g c ts) {e : Env}
    (he : M.env e s.shared = some b) :
    ∃ g' c', M.serial.Run ⟨c, none, ts⟩ g' ⟨c', none, ts⟩ ∧
      M.Serialized I R (h ++ [.env e s.shared b]) { s with shared := b } (g ++ g') c' ts := by
  rcases Option.eq_none_or_eq_some s.holder with hh | ⟨i, hh⟩
  · obtain ⟨rfl, hg⟩ := H.rest hh
    have hs : M.serial.step ⟨s.shared, none, ts⟩ (.env e) =
        some ([.env e s.shared b], ⟨b, none, ts⟩) := by
      have he' : M.serial.env e s.shared = some b := he
      simp only [step, he', Option.map_some]
    refine ⟨_, b, .step .start hs, H.done, H.answered, H.outside, fun _ => ⟨rfl, ?_⟩, ?_⟩
    · rw [List.nil_append, List.map_append, hg, List.map_append]
    · intro j hj
      cases hh.symm.trans hj
  -- what happens meanwhile is replayed with the thread that has the mutex
  · obtain ⟨hc, t, es, ht, hsec, hreplay, hg⟩ := H.inside i hh
    refine ⟨[], c, .start, H.done, H.answered, H.outside, fun hnone => ?_, fun j hj => ?_⟩
    · cases hh.symm.trans hnone
    · obtain rfl : i = j := Option.some.inj (hh.symm.trans hj)
      refine ⟨hc, t, _, ht, hsec, hreplay.env he, ?_⟩
      rw [List.append_nil, ← List.append_assoc, List.map_append, hg, List.map_append]

/-- One step of the threads is a few of the serial run. -/
theorem Serialized.step (H : M.Serialized I R h s g c ts) (calm : M.Calm I R)
    (one : ∀ r, (M.body r).OneSection R) {l : Label Req Env Choice}
    (hs : M.step s l = some (es, s')) (hI : I s'.shared) :
    ∃ g' c' ts', M.serial.Run ⟨c, none, ts⟩ g' ⟨c', none, ts'⟩ ∧
      M.Serialized I R (h ++ es) s' (g ++ g') c' ts' := by
  rcases step_cases hs with
    ⟨r, -, rfl, rfl⟩ | ⟨i, r, k, ht, hfree, rfl, rfl⟩ | ⟨i, r, k, ht, rfl, rfl⟩ |
    ⟨i, r, o, k, ch, v, b, ht, hx, rfl, rfl⟩ | ⟨e, b, he, rfl, rfl⟩
  · -- a request comes
    obtain ⟨g', ts', hrun, H'⟩ := H.advance (H.calm hI) (t := ⟨r, M.body r⟩) (one r)
      (fun a _ => replays_start r a) (s.threads ++ [⟨r, M.body r⟩])
      (fun i hi => by
        obtain ⟨-, t, es, ht, -⟩ := H.inside i hi
        rw [List.getElem?_append_left (List.getElem?_eq_some_iff.mp ht).1])
      (fun i u hu => (getElem?_append_singleton hu).symm.imp_left And.right)
      (by
        rw [List.filter_append, Sys.answered]
        exact .append_left _ (by simp [List.filter_cons]))
    rw [List.append_nil]
    exact ⟨g', c, ts', hrun, H'⟩
  · rw [List.append_nil]
    exact ⟨[], c, ts, .start, by rw [List.append_nil]; exact H.lock hI ht hfree⟩
  · obtain ⟨g', ts', hrun, H'⟩ := H.unlock ht
    rw [List.append_nil]
    exact ⟨g', _, ts', hrun, H'⟩
  · by_cases hh : s.holder = some i
    · -- inside: the operation is remembered until the mutex is given back
      exact ⟨[], c, ts, .start, by rw [List.append_nil]; exact H.op hh ht hx⟩
    · -- outside: what is read is the same in the state of the serial run
      obtain ⟨hone, hreplay⟩ := H.outside i _ ht hh
      obtain ⟨hR, hk⟩ : R o ∧ ∀ v, (k v).OneSection R := hone
      obtain ⟨hquiet, rfl, hsame⟩ := calm.read hR (calm.op_back hx hI) hx
      obtain ⟨g', ts', hrun, H'⟩ := H.advance (H.calm hI) (t := ⟨r, k v⟩) (hk v)
        (fun a ha => by
          obtain ⟨c', hc'⟩ := hsame a ha
          have := (hreplay rfl a ha).op hc' i
          rwa [hquiet] at this)
        (s.threads.set i ⟨r, k v⟩)
        (fun j hj => by
          rw [List.getElem?_set_ne]
          rintro rfl
          exact hh hj)
        (fun j u hu => (getElem?_set_cases hu).imp And.right And.right)
        (by
          cases hd : (k v).isDone with
          | true => exact filter_set_pos ht rfl hd
          | false =>
              rw [filter_set_neg (p := fun t => t.code.isDone) ht rfl hd]
              exact .of_eq (List.append_nil _).symm)
      rw [hquiet]
      exact ⟨g', c, ts', hrun, by simpa using H'⟩
  · obtain ⟨g', c', hrun, H'⟩ := H.env he
    exact ⟨g', c', ts, hrun, H'⟩

/-- What `I` says at the end of a step it said before it. -/
theorem Calm.back (calm : M.Calm I R) {l : Label Req Env Choice} (hs : M.step s l = some (es, s'))
    (hI : I s'.shared) : I s.shared := by
  rcases step_cases hs with
    ⟨r, -, -, rfl⟩ | ⟨i, r, k, -, -, -, rfl⟩ | ⟨i, r, k, -, -, rfl⟩ |
    ⟨i, r, o, k, ch, v, b, -, hx, -, rfl⟩ | ⟨e, b, he, -, rfl⟩
  · exact hI
  · exact hI
  · exact hI
  · exact calm.op_back hx hI
  · exact calm.env_back he hI

/-- What is put in order stays in front: a run that goes on adds to the serial run
    behind it. -/
theorem Serialized.run {h' : List (Event S σ Req Env)} (H : M.Serialized I R h s g c ts)
    (calm : M.Calm I R) (one : ∀ r, (M.body r).OneSection R) (run : M.Run s h' s')
    (hI : I s'.shared) :
    ∃ g' c' ts', M.serial.Run ⟨c, none, ts⟩ g' ⟨c', none, ts'⟩ ∧
      M.Serialized I R (h ++ h') s' (g ++ g') c' ts' := by
  induction run with
  | start => exact ⟨[], c, ts, .start, by simpa using H⟩
  | step _ hs ih =>
      obtain ⟨g₁, c₁, ts₁, run₁, H₁⟩ := ih (calm.back hs hI)
      obtain ⟨g₂, c₂, ts₂, run₂, H₂⟩ := H₁.step calm one hs hI
      exact ⟨g₁ ++ g₂, c₂, ts₂, run₁.trans run₂, by simpa only [List.append_assoc] using H₂⟩

/-- The serial run goes on to where the thread with the mutex is. -/
theorem Serialized.complete (H : M.Serialized I R h s g c ts) :
    ∃ g' t, M.serial.Run ⟨c, none, ts⟩ g' t ∧ t.shared = s.shared ∧
      t.threads.Perm (s.answered ++ s.inside.map Thread.unlocked) ∧
        (g ++ g').map Event.unnamed = h.map Event.unnamed := by
  rcases Option.eq_none_or_eq_some s.holder with hh | ⟨i, hh⟩
  · obtain ⟨hc, hg⟩ := H.rest hh
    refine ⟨[], _, .start, hc, ?_, by rw [List.append_nil, hg]⟩
    simpa [Sys.inside, hh] using H.answered
  · obtain ⟨-, t, es, ht, -, hreplay, hg⟩ := H.inside i hh
    obtain ⟨g', hrun, hg'⟩ := hreplay ts H.done
    refine ⟨g', _, hrun, rfl, ?_, by rw [List.map_append, hg', ← List.map_append, hg]⟩
    simpa [Sys.inside, hh, ht, Thread.unlocked] using H.answered.append_right _

/-- A run of the threads is one of `M.serial`, in two parts if it has two: who
    has answered in the first is served in the first. -/
theorem Calm.serializable (calm : M.Calm I R) (one : ∀ r, (M.body r).OneSection R) {a : σ}
    {h₁ h₂ : List (Event S σ Req Env)} {s₁ s₂ : Sys S σ Req Resp} (run₁ : M.Run (init a) h₁ s₁)
    (run₂ : M.Run s₁ h₂ s₂) (hI : I s₂.shared) :
    ∃ g₁ t₁ g₂ t₂, M.serial.Run (init a) g₁ t₁ ∧ t₁.threads.Perm s₁.answered ∧
      (s₁.holder = none → t₁.shared = s₁.shared) ∧
      M.serial.Run t₁ g₂ t₂ ∧ t₂.threads.Perm (s₂.answered ++ s₂.inside.map Thread.unlocked) ∧
        t₂.shared = s₂.shared ∧
          (g₁ ++ g₂).map Event.unnamed = (h₁ ++ h₂).map Event.unnamed := by
  have hI₁ : I s₁.shared := by
    clear run₁
    induction run₂ with
    | start => exact hI
    | step _ hs ih => exact ih (calm.back hs hI)
  obtain ⟨g₁, c₁, ts₁, srun₁, H₁⟩ := (serialized_init a).run calm one run₁ hI₁
  obtain ⟨g₂, c₂, ts₂, srun₂, H₂⟩ := H₁.run calm one run₂ hI
  obtain ⟨g₃, t, srun₃, hshared, hthreads, hg⟩ := H₂.complete
  refine ⟨g₁, ⟨c₁, none, ts₁⟩, g₂ ++ g₃, t, srun₁, H₁.answered, fun hh => (H₁.rest hh).1,
    srun₂.trans srun₃, hthreads, hshared, ?_⟩
  simpa only [List.nil_append, List.append_assoc] using hg

end

end Machine

end Webstore.Sched
