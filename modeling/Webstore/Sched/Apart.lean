/-
  Webstore.Sched.Apart

  Threads that do not interfere.  The requests are of two kinds, those that
  are kept and those that are removed.  If the operations of the removed ones
  leave everything as it is that the kept ones can see, then a schedule with
  the removed requests left out gives each of the others the same answer.

  The removed threads also disappear from the mutex, so every program has to
  give it back only when it holds it: `Bracketed`.
-/
import Webstore.Sched.Outline

namespace Webstore.Sched

variable {S : Sig} {σ Req Resp Env Choice α : Type}

/-! ## Leaving threads out -/

/-- The position of thread `i` among those that are kept. -/
def rank (ks : List Bool) (i : Nat) : Nat := (ks.take i).count true

/-- What is left of one choice of the scheduler; `ks` says which of the threads
    started so far are kept. -/
def shown (keep : Req → Bool) (ks : List Bool) :
    Label Req Env Choice → List (Label Req Env Choice)
  | .spawn r => if keep r then [.spawn r] else []
  | .act i c => if ks[i]? = some true then [.act (rank ks i) c] else []
  | .env e => [.env e]

/-- Which threads are kept after it. -/
def started (keep : Req → Bool) (ks : List Bool) : Label Req Env Choice → List Bool
  | .spawn r => ks ++ [keep r]
  | _ => ks

/-- What is left of a schedule without the requests that are not kept. -/
def without (keep : Req → Bool) (ks : List Bool) :
    List (Label Req Env Choice) → List (Label Req Env Choice)
  | [] => []
  | l :: ls => shown keep ks l ++ without keep (started keep ks l) ls

section
variable {β : Type} {f : β → Bool} {l : List β} {i : Nat} {t t' : β}

theorem rank_append {ks : List Bool} (b : Bool) (h : i ≤ ks.length) :
    rank (ks ++ [b]) i = rank ks i := by
  rw [rank, List.take_append_of_le_length h, rank]

/-- A kept element keeps its place among the kept ones. -/
theorem getElem?_filter_rank (h : l[i]? = some t) (ht : f t = true) :
    (l.filter f)[rank (l.map f) i]? = some t := by
  induction l generalizing i with
  | nil => cases h
  -- the place of an element behind `x` counts `x` if it is kept
  | cons x l ih =>
      cases i with
      | zero =>
          cases h
          simp [rank, ht]
      | succ i =>
          have := ih h
          cases hx : f x with
          | true => simpa [rank, hx] using this
          | false => simpa [rank, hx] using this

/-- Replacing a kept element. -/
theorem filter_set_kept (h : l[i]? = some t) (ht : f t = true) (ht' : f t' = true) :
    (l.set i t').filter f = (l.filter f).set (rank (l.map f) i) t' := by
  induction l generalizing i with
  | nil => cases h
  | cons x l ih =>
      cases i with
      | zero =>
          cases h
          simp [rank, ht, ht']
      | succ i =>
          have := ih h
          cases hx : f x with
          | true => simpa [rank, hx] using this
          | false => simpa [rank, hx] using this

/-- Replacing one that is not kept. -/
theorem filter_set_removed (h : l[i]? = some t) (ht : f t = false) (ht' : f t' = false) :
    (l.set i t').filter f = l.filter f := by
  induction l generalizing i with
  | nil => cases h
  | cons x l ih =>
      cases i with
      | zero =>
          cases h
          simp [ht, ht']
      | succ i =>
          have := ih h
          cases hx : f x <;> simpa [hx] using this

end

/-! ## The simulation -/

namespace Machine

/-- The removed requests do not touch what the kept ones see: `R` relates the
    resource with them to the resource without, and `A` says what the programs
    of the two kinds may still do. -/
structure Apart (M : Machine S σ Req Resp Env Choice) (keep : Req → Bool) (R : σ → σ → Prop)
    (A : Bool → Prog S Resp → Prop) : Prop where
  starts : ∀ r, (M.body r).Bracketed false ∧ A (keep r) (M.body r)
  lock : ∀ {b k}, A b (.lock k) → A b k
  unlock : ∀ {b k}, A b (.unlock k) → A b k
  env : ∀ {e a a' b}, R a b → M.env e a = some a' → ∃ b', M.env e b = some b' ∧ R a' b'
  kept : ∀ {o k a a' b c v}, A true (.op o k) → R a b → M.exec o a c = some (v, a') →
    A true (k v) ∧ ∃ b', M.exec o b c = some (v, b') ∧ R a' b'
  removed : ∀ {o k a a' b c v}, A false (.op o k) → R a b → M.exec o a c = some (v, a') →
    A false (k v) ∧ R a' b

variable {M : Machine S σ Req Resp Env Choice} {keep : Req → Bool} {R : σ → σ → Prop}
  {A : Bool → Prog S Resp → Prop}

/-- Which threads are kept. -/
def flags (keep : Req → Bool) (s : Sys S σ Req Resp) : List Bool := s.threads.map (keep ·.req)

/-- The holder by its place among the kept threads, if it is one of them. -/
def holderAmong (ks : List Bool) (holder : Option Nat) : Option Nat :=
  holder.bind fun i => if ks[i]? = some true then some (rank ks i) else none

/-- `s'` is `s` without the threads that are not kept. -/
structure Agree (keep : Req → Bool) (R : σ → σ → Prop) (A : Bool → Prog S Resp → Prop)
    (s s' : Sys S σ Req Resp) : Prop where
  shared : R s.shared s'.shared
  threads : s'.threads = s.threads.filter (keep ·.req)
  holder : s'.holder = holderAmong (flags keep s) s.holder
  bound : ∀ i, s.holder = some i → i < s.threads.length
  brackets : ∀ (i : Nat) (t : Thread S Req Resp), s.threads[i]? = some t →
    t.code.Bracketed (s.holder == some i)
  able : ∀ (i : Nat) (t : Thread S Req Resp), s.threads[i]? = some t → A (keep t.req) t.code

/-- Two systems that nobody has entered agree if their states do. -/
theorem Agree.init {a b : σ} (h : R a b) :
    Agree keep R A (Machine.init a : Sys S σ Req Resp) (Machine.init b) where
  shared := h
  threads := rfl
  holder := rfl
  bound i h := by cases h
  brackets i t h := by cases h
  able i t h := by cases h

variable {s s' : Sys S σ Req Resp}

theorem flags_getElem? {i : Nat} {t : Thread S Req Resp} (h : s.threads[i]? = some t) :
    (flags keep s)[i]? = some (keep t.req) := by
  rw [flags, List.getElem?_map, h]
  rfl

/-- Both systems start a kept request. -/
theorem Agree.spawn (H : M.Apart keep R A) (G : Agree keep R A s s') (r : Req) :
    Agree keep R A { s with threads := s.threads ++ [⟨r, M.body r⟩] }
      { s' with threads := s'.threads ++ if keep r then [⟨r, M.body r⟩] else [] } where
  shared := G.shared
  threads := by
    simp only [List.filter_append, G.threads]
    cases hk : keep r <;> simp [hk]
  holder := by
    -- the holder is an old thread: the new one does not change its rank
    have hflags : flags keep { s with threads := s.threads ++ [⟨r, M.body r⟩] } =
        flags keep s ++ [keep r] := by simp [flags]
    rw [hflags]
    refine G.holder.trans ?_
    unfold holderAmong
    cases hh : s.holder with
    | none => rfl
    | some i =>
        have hi : i < (flags keep s).length := by simpa [flags] using G.bound i hh
        simp only [Option.bind_some]
        rw [List.getElem?_append_left hi, rank_append _ (Nat.le_of_lt hi)]
  bound i hi := by
    have := G.bound i hi
    simp only [List.length_append, List.length_singleton]
    omega
  brackets i t ht := by
    rcases getElem?_append_singleton ht with ht | ⟨rfl, rfl⟩
    · exact G.brackets i t ht
    -- no thread holds the lock before it starts
    · have hne : (s.holder == some s.threads.length) = false := by
        cases hh : s.holder with
        | none => rfl
        | some j =>
            have := G.bound j hh
            simp only [beq_eq_false_iff_ne, ne_eq, Option.some.injEq]
            omega
      rw [hne]
      exact (H.starts r).1
  able i t ht := by
    rcases getElem?_append_singleton ht with ht | ⟨rfl, rfl⟩
    · exact G.able i t ht
    · exact (H.starts r).2

/-- Thread `i` goes on to `k`, and the resource and the holder change in both
    systems. -/
theorem Agree.set (G : Agree keep R A s s') {i : Nat} {r : Req} {p k : Prog S Resp}
    (ht : s.threads[i]? = some ⟨r, p⟩) {a b : σ} (hR : R a b) {holder holder' : Option Nat}
    (hh : holder' = holderAmong (flags keep s) holder)
    (hb : ∀ j, holder = some j → j < s.threads.length)
    (hself : k.Bracketed (holder == some i))
    (hothers : ∀ j ≠ i, (holder == some j) = (s.holder == some j)) (hA : A (keep r) k) :
    Agree keep R A ⟨a, holder, s.threads.set i ⟨r, k⟩⟩
      ⟨b, holder',
        if keep r then s'.threads.set (rank (flags keep s) i) ⟨r, k⟩ else s'.threads⟩ where
  shared := hR
  threads := by
    simp only [G.threads]
    -- a kept thread moves on both sides, one that is left out on one side only
    cases hk : keep r with
    | true => exact (filter_set_kept ht hk hk).symm
    | false => exact (filter_set_removed ht hk hk).symm
  holder := by
    have hflags : flags keep ⟨a, holder, s.threads.set i ⟨r, k⟩⟩ = flags keep s :=
      map_set_same (g := fun t : Thread S Req Resp => keep t.req) ht rfl
    rw [hflags]
    exact hh
  bound j hj := by
    rw [List.length_set]
    exact hb j hj
  brackets j t hj := by
    rcases getElem?_set_cases hj with ⟨rfl, rfl⟩ | ⟨hji, hj⟩
    · exact hself
    · simp only
      rw [hothers j hji]
      exact G.brackets j t hj
  able j t hj := by
    rcases getElem?_set_cases hj with ⟨rfl, rfl⟩ | ⟨-, hj⟩
    · exact hA
    · exact G.able j t hj

/-- A kept thread has its counterpart. -/
theorem Agree.counterpart (G : Agree keep R A s s') {i : Nat} {r : Req} {p : Prog S Resp}
    (ht : s.threads[i]? = some ⟨r, p⟩) (hk : keep r = true) :
    s'.threads[rank (flags keep s) i]? = some ⟨r, p⟩ := by
  rw [G.threads]
  exact getElem?_filter_rank (f := fun t : Thread S Req Resp => keep t.req) ht hk

/-- The kept threads hold the mutex only if the holder is one of them. -/
theorem holderAmong_some {ks : List Bool} {i : Nat} (h : ks[i]? = some true) :
    holderAmong ks (some i) = some (rank ks i) := by
  simp [holderAmong, h]

theorem holderAmong_removed {ks : List Bool} {i : Nat} (h : ks[i]? = some false) :
    holderAmong ks (some i) = none := by
  simp [holderAmong, h]

theorem shown_act {ks : List Bool} {i : Nat} {b : Bool} (h : ks[i]? = some b) (c : Choice) :
    shown keep ks (.act i c : Label Req Env Choice) =
      if b then [.act (rank ks i) c] else [] := by
  cases b <;> simp [shown, h]

theorem follow_single {s s' : Sys S σ Req Resp} {l : Label Req Env Choice}
    {es : List (Event S σ Req Env)} (h : M.step s l = some (es, s')) :
    M.follow s [l] = some (es, s') := by
  simp [follow, h]

theorem flags_set {i : Nat} {r : Req} {p k : Prog S Resp}
    (ht : s.threads[i]? = some ⟨r, p⟩) (a : σ) (holder : Option Nat) :
    flags keep (⟨a, holder, s.threads.set i ⟨r, k⟩⟩ : Sys S σ Req Resp) = flags keep s :=
  map_set_same (g := fun t : Thread S Req Resp => keep t.req) ht rfl

/-- The step of a kept thread. -/
theorem Agree.act_kept (G : Agree keep R A s s') {i : Nat} {r : Req} {p : Prog S Resp} {c : Choice}
    (ht : s.threads[i]? = some ⟨r, p⟩) (hk : keep r = true)
    {es : List (Event S σ Req Env)} {s₁' : Sys S σ Req Resp}
    (hp : M.stepThread s' (rank (flags keep s) i) r c p = some (es, s₁')) :
    M.follow s' (shown keep (flags keep s) (.act i c)) = some (es, s₁') := by
  rw [shown_act (flags_getElem? ht) c, hk, if_pos rfl]
  refine follow_single ?_
  rw [Machine.step, G.counterpart ht hk]
  exact hp

/-- The step of a thread that is not kept is left out. -/
theorem Agree.act_removed (s' : Sys S σ Req Resp) {i : Nat} {r : Req} {p : Prog S Resp} (c : Choice)
    (ht : s.threads[i]? = some ⟨r, p⟩) (hk : keep r = false) :
    M.follow s' (shown keep (flags keep s) (.act i c)) = some ([], s') := by
  rw [shown_act (flags_getElem? ht) c, hk]
  rfl

/-- A thread takes the mutex: so does its counterpart, and nobody does if it
    has none. -/
theorem Agree.lock (H : M.Apart keep R A) (G : Agree keep R A s s') {i : Nat} {r : Req}
    {k : Prog S Resp} (c : Choice) (ht : s.threads[i]? = some ⟨r, .lock k⟩) (hn : s.holder = none) :
    ∃ h' s₁', M.follow s' (shown keep (flags keep s) (.act i c)) = some (h', s₁') ∧
      Agree keep R A { s with holder := some i, threads := s.threads.set i ⟨r, k⟩ } s₁' := by
  have hflag : (flags keep s)[i]? = some (keep r) := flags_getElem? ht
  have hn' : s'.holder = none := by
    rw [G.holder, hn]
    rfl
  have hothers : ∀ j ≠ i, (some i == some j) = (s.holder == some j) := by
    intro j hj
    simp [hn, Ne.symm hj]
  have hbound : ∀ j, some i = some j → j < s.threads.length := by
    rintro j ⟨⟩
    exact (List.getElem?_eq_some_iff.mp ht).1
  have hself : k.Bracketed (some i == some i) := by simpa using (G.brackets i _ ht).2
  have G₁ := G.set ht G.shared rfl hbound hself hothers (H.lock (G.able i _ ht))
  cases hk : keep r with
  | true =>
      rw [hk] at hflag
      rw [hk, if_pos rfl, holderAmong_some hflag] at G₁
      -- nobody holds the mutex there either
      refine ⟨[], _, G.act_kept ht hk ?_, G₁⟩
      simp [stepThread, hn']
  | false =>
      rw [hk] at hflag
      rw [hk, holderAmong_removed hflag, ← hn'] at G₁
      exact ⟨[], _, act_removed s' c ht hk, G₁⟩

/-- A thread gives the mutex back.  It holds it, so that no kept thread does if
    it is not kept. -/
theorem Agree.unlock (H : M.Apart keep R A) (G : Agree keep R A s s') {i : Nat} {r : Req}
    {k : Prog S Resp} (c : Choice) (ht : s.threads[i]? = some ⟨r, .unlock k⟩) :
    ∃ h' s₁', M.follow s' (shown keep (flags keep s) (.act i c)) = some (h', s₁') ∧
      Agree keep R A { s with holder := none, threads := s.threads.set i ⟨r, k⟩ } s₁' := by
  have hflag : (flags keep s)[i]? = some (keep r) := flags_getElem? ht
  have hbr := G.brackets i _ ht
  -- a bracketed thread releases only what it holds
  have hi : s.holder = some i := by simpa using hbr.1
  have hothers : ∀ j ≠ i, (none == some j) = (s.holder == some j) := by
    intro j hj
    simp [hi, Ne.symm hj]
  have hself : k.Bracketed (none == some i) := by simpa using hbr.2
  have G₁ := G.set ht G.shared rfl (by simp) hself hothers (H.unlock (G.able i _ ht))
  cases hk : keep r with
  | true =>
      rw [hk, if_pos rfl] at G₁
      exact ⟨[], _, G.act_kept ht hk rfl, G₁⟩
  | false =>
      -- the holder was a removed thread: over there the lock was free all along
      have hn' : s'.holder = none := by
        rw [hk] at hflag
        rw [G.holder, hi, holderAmong_removed hflag]
      have hnone : holderAmong (flags keep s) none = s'.holder := by
        rw [hn']
        rfl
      rw [hk, hnone] at G₁
      exact ⟨[], _, act_removed s' c ht hk, G₁⟩

/-- A thread performs an operation: its counterpart gets the same value. -/
theorem Agree.op (H : M.Apart keep R A) (G : Agree keep R A s s') {i : Nat} {r : Req} {o : S.Op}
    {k : S.Ret o → Prog S Resp} {c : Choice} {v : S.Ret o} {a' : σ}
    (ht : s.threads[i]? = some ⟨r, .op o k⟩) (hx : M.exec o s.shared c = some (v, a')) :
    ∃ h' s₁', M.follow s' (shown keep (flags keep s) (.act i c)) = some (h', s₁') ∧
      Agree keep R A { s with shared := a', threads := s.threads.set i ⟨r, k v⟩ } s₁' := by
  have hbr := G.brackets i _ ht v
  have hA := G.able i _ ht
  cases hk : keep r with
  | true =>
      rw [hk] at hA
      -- a kept thread: the other resource answers the same
      obtain ⟨hA', b', hx', hR⟩ := H.kept hA G.shared hx
      rw [← hk] at hA'
      have G₁ := G.set ht hR G.holder G.bound hbr (fun _ _ => rfl) hA'
      rw [hk, if_pos rfl] at G₁
      let es : List (Event S σ Req Env) :=
        if M.observed o then [.op (rank (flags keep s) i) r o v s'.shared b'] else []
      refine ⟨es, _, G.act_kept ht hk ?_, G₁⟩
      simp [stepThread, hx', es]
  | false =>
      rw [hk] at hA
      -- a removed thread: what it did does not show over there
      obtain ⟨hA', hR⟩ := H.removed hA G.shared hx
      rw [← hk] at hA'
      have G₁ := G.set ht hR G.holder G.bound hbr (fun _ _ => rfl) hA'
      rw [hk] at G₁
      exact ⟨[], _, act_removed s' c ht hk, G₁⟩

/-- Whatever the step of a thread is, the counterpart takes the same, and there
    is none to take if the thread is not kept. -/
theorem Agree.act (H : M.Apart keep R A) (G : Agree keep R A s s') {i : Nat} {r : Req}
    {p : Prog S Resp} {c : Choice} (ht : s.threads[i]? = some ⟨r, p⟩)
    {es : List (Event S σ Req Env)} {s₁ : Sys S σ Req Resp}
    (hp : M.stepThread s i r c p = some (es, s₁)) :
    flags keep s₁ = flags keep s ∧
      ∃ h' s₁', M.follow s' (shown keep (flags keep s) (.act i c)) = some (h', s₁') ∧
        Agree keep R A s₁ s₁' := by
  cases p with
  | done a => cases hp
  | lock k =>
      simp only [stepThread, Option.isNone_iff_eq_none, Option.ite_none_right_eq_some,
        Option.some.injEq, Prod.mk.injEq] at hp
      obtain ⟨hn, -, rfl⟩ := hp
      exact ⟨flags_set ht _ _, G.lock H c ht hn⟩
  | unlock k =>
      simp only [stepThread, Option.some.injEq, Prod.mk.injEq] at hp
      obtain ⟨-, rfl⟩ := hp
      exact ⟨flags_set ht _ _, G.unlock H c ht⟩
  | op o k =>
      simp only [stepThread, Option.map_eq_some_iff] at hp
      obtain ⟨⟨v, a'⟩, hx, heq⟩ := hp
      obtain ⟨-, rfl⟩ := Prod.mk.inj heq
      exact ⟨flags_set ht _ _, G.op H ht hx⟩

/-- Each step of the whole system is one of the system without the removed
    threads, or none. -/
theorem Agree.step (H : M.Apart keep R A) (G : Agree keep R A s s')
    {l : Label Req Env Choice} {es : List (Event S σ Req Env)} {s₁ : Sys S σ Req Resp}
    (hs : M.step s l = some (es, s₁)) :
    flags keep s₁ = started keep (flags keep s) l ∧
      ∃ h' s₁', M.follow s' (shown keep (flags keep s) l) = some (h', s₁') ∧
        Agree keep R A s₁ s₁' := by
  cases l with
  | spawn r =>
      simp only [Machine.step, Option.ite_none_right_eq_some, Option.some.injEq,
        Prod.mk.injEq] at hs
      obtain ⟨hm, -, rfl⟩ := hs
      refine ⟨by simp [flags, started], ?_⟩
      have G₁ := G.spawn H r
      cases hk : keep r with
      | false =>
          refine ⟨[], s', by simp [shown, hk, follow], ?_⟩
          simpa [hk] using G₁
      | true =>
          rw [hk, if_pos rfl] at G₁
          refine ⟨[], _, ?_, G₁⟩
          rw [shown, hk, if_pos rfl]
          refine follow_single ?_
          -- in sequential mode the kept threads have answered when all have
          rw [Machine.step, if_pos]
          simp only [Bool.or_eq_true, List.all_eq_true] at hm ⊢
          refine hm.imp id fun hall t ht => hall t ?_
          rw [G.threads] at ht
          exact (List.mem_filter.mp ht).1
  | act i c =>
      simp only [Machine.step, Option.bind_eq_some_iff] at hs
      obtain ⟨⟨r, p⟩, ht, hp⟩ := hs
      exact G.act H ht hp
  | env e =>
      simp only [Machine.step, Option.map_eq_some_iff] at hs
      obtain ⟨σ', he, heq⟩ := hs
      obtain ⟨-, rfl⟩ := Prod.mk.inj heq
      obtain ⟨b', hb', hR⟩ := H.env G.shared he
      refine ⟨rfl, [.env e s'.shared b'], { s' with shared := b' }, ?_,
        { G with shared := hR }⟩
      refine follow_single ?_
      simp [Machine.step, hb']

/-- Labels are followed one after the other. -/
theorem follow_append {s₁ s₂ s₃ : Sys S σ Req Resp} {ls ls' : List (Label Req Env Choice)}
    {h h' : List (Event S σ Req Env)} (h₁ : M.follow s₁ ls = some (h, s₂))
    (h₂ : M.follow s₂ ls' = some (h', s₃)) : M.follow s₁ (ls ++ ls') = some (h ++ h', s₃) := by
  induction ls generalizing s₁ h with
  | nil =>
      simp only [follow, Option.some.injEq, Prod.mk.injEq] at h₁
      obtain ⟨rfl, rfl⟩ := h₁
      exact h₂
  | cons l ls ih =>
      simp only [follow, Option.bind_eq_some_iff, Option.map_eq_some_iff] at h₁
      obtain ⟨es, hs, hs', hrest, heq⟩ := h₁
      obtain ⟨rfl, rfl⟩ := Prod.mk.inj heq
      simp [follow, hs, ih hrest]

/-- Along a whole schedule. -/
theorem Agree.follow (H : M.Apart keep R A) (G : Agree keep R A s s')
    {ls : List (Label Req Env Choice)} {h : List (Event S σ Req Env)} {s₁ : Sys S σ Req Resp}
    (hf : M.follow s ls = some (h, s₁)) :
    ∃ h' s₁', M.follow s' (without keep (flags keep s) ls) = some (h', s₁') ∧
      Agree keep R A s₁ s₁' := by
  induction ls generalizing s s' h with
  | nil =>
      simp only [Machine.follow, Option.some.injEq, Prod.mk.injEq] at hf
      obtain ⟨-, rfl⟩ := hf
      exact ⟨[], s', rfl, G⟩
  | cons l ls ih =>
      simp only [Machine.follow, Option.bind_eq_some_iff, Option.map_eq_some_iff] at hf
      obtain ⟨⟨es, s₂⟩, hs, ⟨hrest, s₃⟩, hf', heq⟩ := hf
      obtain ⟨-, rfl⟩ := Prod.mk.inj heq
      -- one step of the whole system first, then the rest from where it leads
      obtain ⟨hflags, h₂, s₂', hstep, G₂⟩ := G.step H hs
      obtain ⟨h₃, s₃', hrun, G₃⟩ := ih G₂ hf'
      rw [hflags] at hrun
      exact ⟨_, s₃', follow_append hstep hrun, G₃⟩

/-- Without the removed requests the kept ones run as before: they take the
    same steps and get the same answers. -/
theorem Apart.follow (H : M.Apart keep R A) {a b : σ} (hR : R a b)
    {ls : List (Label Req Env Choice)} {h : List (Event S σ Req Env)} {s : Sys S σ Req Resp}
    (hf : M.follow (Machine.init a) ls = some (h, s)) :
    ∃ h' s', M.follow (Machine.init b) (without keep [] ls) = some (h', s') ∧
      s'.threads = s.threads.filter (keep ·.req) := by
  obtain ⟨h', s', hrun, G⟩ := (Agree.init hR).follow H hf
  exact ⟨h', s', hrun, G.threads⟩

end Machine

end Webstore.Sched
