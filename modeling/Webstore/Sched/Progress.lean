/-
  Webstore.Sched.Progress

  Threads that do not wait for each other for ever.  A program that takes and
  gives back the mutex by turns, and that answers after a bounded number of
  steps of its own, is never stuck: as long as someone has not answered,
  someone can go on; no thread is given more steps than its bound, so that all
  together take no more than the requests have brought.

    * `Prog.Within ok n p`: `p` answers after at most `n` steps, whatever comes
      back, and all its operations are `ok`.
    * `Machine.Orderly ok bs s`: each thread holds the mutex or not as its
      program expects, and thread `i` answers after at most `bs[i]` steps.
    * `Machine.Paid n ls bs bs'`: the schedule `ls` has used up of each budget
      what it gave that thread.
-/
import Mathlib.Algebra.Ring.Nat
import Webstore.Sched.Machine

namespace Webstore.Sched

variable {S : Sig} {σ Req Resp Env Choice α β : Type} {ok : S.Op → Prop}

/-! ## Programs -/

namespace Prog

/-- The program answers after at most `n` steps, whatever comes back, and comes
    to `ok` operations only. -/
def Within (ok : S.Op → Prop) : Nat → Prog S α → Prop
  | _, .done _ => True
  | 0, _ => False
  | n + 1, .lock p => p.Within ok n
  | n + 1, .unlock p => p.Within ok n
  | n + 1, .op o k => ok o ∧ ∀ v, (k v).Within ok n

@[simp] theorem within_done (n : Nat) (a : α) : (Prog.done a : Prog S α).Within ok n := by
  cases n <;> trivial

/-- A larger bound is a bound. -/
theorem Within.mono {m n : Nat} (hmn : m ≤ n) {p : Prog S α} (h : p.Within ok m) :
    p.Within ok n := by
  induction n generalizing m p with
  | zero =>
      obtain rfl : m = 0 := Nat.le_zero.mp hmn
      exact h
  | succ n ih =>
      cases m with
      | zero =>
          cases p with
          | done a => trivial
          | _ => exact h.elim
      | succ m =>
          have hmn' : m ≤ n := Nat.le_of_succ_le_succ hmn
          cases p with
          | done a => trivial
          | lock p => exact ih hmn' h
          | unlock p => exact ih hmn' h
          | op o k => exact ⟨h.1, fun v => ih hmn' (h.2 v)⟩

/-- The bounds of programs that follow one another add up. -/
theorem Within.bind {m n : Nat} {p : Prog S α} (hp : p.Within ok n) {f : α → Prog S β}
    (hf : ∀ a, (f a).Within ok m) : (p >>= f).Within ok (n + m) := by
  induction n generalizing p with
  | zero =>
      cases p with
      | done a => exact (hf a).mono (Nat.le_add_left _ _)
      | _ => exact hp.elim
  | succ n ih =>
      rw [Nat.succ_add]
      cases p with
      | done a => exact (hf a).mono (by omega)
      | lock p => exact ih hp
      | unlock p => exact ih hp
      | op o k => exact ⟨hp.1, fun v => ih (hp.2 v)⟩

/-- Going on with the answer takes no step. -/
theorem Within.map {n : Nat} {p : Prog S α} (h : p.Within ok n) (f : α → β) :
    (p >>= fun a => .done (f a)).Within ok n :=
  h.bind (m := 0) fun _ => within_done 0 _

/-- What keeps to some operations keeps to more. -/
theorem Within.imp {ok' : S.Op → Prop} (hok : ∀ o, ok o → ok' o) {n : Nat} {p : Prog S α}
    (h : p.Within ok n) : p.Within ok' n := by
  induction n generalizing p with
  | zero =>
      cases p with
      | done a => trivial
      | _ => exact h.elim
  | succ n ih =>
      cases p with
      | done a => trivial
      | lock p => exact ih h
      | unlock p => exact ih h
      | op o k => exact ⟨hok o h.1, fun v => ih (h.2 v)⟩

theorem Within.ite {c : Prop} [Decidable c] {n : Nat} {p q : Prog S α} (hp : p.Within ok n)
    (hq : q.Within ok n) : (if c then p else q).Within ok n := by
  split
  · exact hp
  · exact hq

end Prog

/-! ## Threads -/

/-- A sum changes by as much as one of its terms. -/
theorem sum_set {l : List Nat} {i m : Nat} (h : l[i]? = some m) (n : Nat) :
    (l.set i n).sum + m = l.sum + n := by
  induction l generalizing i with
  | nil => cases h
  | cons x l ih =>
      cases i with
      | zero =>
          cases h
          simp only [List.set_cons_zero, List.sum_cons]
          omega
      | succ i =>
          have hl := ih (i := i) h
          simp only [List.set_cons_succ, List.sum_cons]
          omega

/-- A step of a thread. -/
def Label.isAct : Label Req Env Choice → Bool
  | .act _ _ => true
  | _ => false

/-- A step of thread `i`. -/
def Label.isActOf (i : Nat) : Label Req Env Choice → Bool
  | .act j _ => j == i
  | _ => false

/-- A request comes in. -/
def Label.isSpawn : Label Req Env Choice → Bool
  | .spawn _ => true
  | _ => false

namespace Machine

variable {M : Machine S σ Req Resp Env Choice}

/-- Every thread holds the mutex or not as its program expects, and thread `i`
    answers after at most `bs[i]` steps. -/
structure Orderly (ok : S.Op → Prop) (bs : List Nat) (s : Sys S σ Req Resp) : Prop where
  length : bs.length = s.threads.length
  holder : ∀ i, s.holder = some i → i < s.threads.length
  bracketed : ∀ (i : Nat) (t : Thread S Req Resp), s.threads[i]? = some t →
    t.code.Bracketed (decide (s.holder = some i))
  within : ∀ (i : Nat) (t : Thread S Req Resp) (b : Nat), s.threads[i]? = some t →
    bs[i]? = some b → t.code.Within ok b

theorem Orderly.lookup {bs : List Nat} {s : Sys S σ Req Resp} (O : Orderly ok bs s) {i : Nat}
    {t : Thread S Req Resp} (ht : s.threads[i]? = some t) : ∃ b, bs[i]? = some b := by
  have hi : i < bs.length := O.length ▸ (List.getElem?_eq_some_iff.mp ht).1
  exact ⟨_, List.getElem?_eq_getElem hi⟩

/-- A request that comes in brings its steps with it. -/
theorem Orderly.spawn {bs : List Nat} {s : Sys S σ Req Resp} (O : Orderly ok bs s) {r : Req}
    {n : Nat} {p : Prog S Resp} (hb : p.Bracketed false) (hw : p.Within ok n) :
    Orderly ok (bs ++ [n]) { s with threads := s.threads ++ [⟨r, p⟩] } where
  length := by simp [O.length]
  holder i hi := by
    have := O.holder i hi
    simp only [List.length_append, List.length_singleton]
    omega
  bracketed i t ht := by
    rcases getElem?_append_singleton ht with ht | ⟨rfl, rfl⟩
    · exact O.bracketed i t ht
    -- the mutex is not held by a thread that is not there yet
    · have hne : s.holder ≠ some s.threads.length := fun h =>
        Nat.lt_irrefl _ (O.holder _ h)
      simpa [hne] using hb
  within i t b ht hi := by
    rcases getElem?_append_singleton ht with ht | ⟨rfl, rfl⟩
    · have hlt : i < bs.length := O.length ▸ (List.getElem?_eq_some_iff.mp ht).1
      rw [List.getElem?_append_left hlt] at hi
      exact O.within i t b ht hi
    · rw [← O.length, List.getElem?_append_right (Nat.le_refl _), Nat.sub_self] at hi
      cases hi
      exact hw

/-- A step of thread `i`, which uses up one of its own. -/
theorem Orderly.step {bs : List Nat} {s : Sys S σ Req Resp} (O : Orderly ok bs s) {i n : Nat}
    {r : Req} {p p' : Prog S Resp} (ht : s.threads[i]? = some ⟨r, p⟩)
    {a : σ} {holder : Option Nat} (hself : p'.Bracketed (decide (holder = some i)))
    (hother : ∀ j, j ≠ i → (holder = some j ↔ s.holder = some j)) (hw : p'.Within ok n) :
    Orderly ok (bs.set i n) ⟨a, holder, s.threads.set i ⟨r, p'⟩⟩ where
  length := by simp [O.length]
  holder j hj := by
    rw [List.length_set]
    by_cases hji : j = i
    · exact hji ▸ (List.getElem?_eq_some_iff.mp ht).1
    · exact O.holder j ((hother j hji).mp hj)
  bracketed j t hj := by
    rcases getElem?_set_cases hj with ⟨rfl, rfl⟩ | ⟨hji, hj⟩
    · exact hself
    · simpa only [hother j hji] using O.bracketed j t hj
  within j t b hj hb := by
    rcases getElem?_set_cases hj with ⟨rfl, rfl⟩ | ⟨hji, hj⟩
    · rcases getElem?_set_cases hb with ⟨-, rfl⟩ | ⟨hne, -⟩
      · exact hw
      · exact absurd rfl hne
    · rw [List.getElem?_set_ne (Ne.symm hji)] at hb
      exact O.within j t b hj hb

/-- A thread that can go on: its next step, if it is granted, and what it
    leaves. -/
theorem Orderly.act {bs : List Nat} {s s' : Sys S σ Req Resp} (O : Orderly ok bs s) {i : Nat}
    {c : Choice} {es : List (Event S σ Req Env)} (hs : M.step s (.act i c) = some (es, s')) :
    ∃ n, bs[i]? = some (n + 1) ∧ Orderly ok (bs.set i n) s' := by
  simp only [Machine.step, Option.bind_eq_some_iff] at hs
  obtain ⟨⟨r, p⟩, ht, hp⟩ := hs
  obtain ⟨b, hb⟩ := O.lookup ht
  have hbr : p.Bracketed (decide (s.holder = some i)) := O.bracketed i _ ht
  have hw : p.Within ok b := O.within i _ b ht hb
  cases b with
  | zero =>
      -- a thread without steps to go has answered
      cases p with
      | done a => cases hp
      | _ => exact hw.elim
  | succ n =>
      refine ⟨n, hb, ?_⟩
      cases p with
      | done a => cases hp
      | lock k =>
          simp only [stepThread, Option.isNone_iff_eq_none, Option.ite_none_right_eq_some,
            Option.some.injEq, Prod.mk.injEq] at hp
          obtain ⟨hn, -, rfl⟩ := hp
          refine O.step ht (by simpa using hbr.2) (fun j hj => ?_) hw
          simp [hn, Ne.symm hj]
      | unlock k =>
          simp only [stepThread, Option.some.injEq, Prod.mk.injEq] at hp
          obtain ⟨-, rfl⟩ := hp
          have hi : s.holder = some i := by simpa using hbr.1
          refine O.step ht (by simpa using hbr.2) (fun j hj => ?_) hw
          simp [hi, Ne.symm hj]
      | op o k =>
          simp only [stepThread, Option.map_eq_some_iff] at hp
          obtain ⟨⟨v, a⟩, -, heq⟩ := hp
          obtain ⟨-, rfl⟩ := Prod.mk.inj heq
          exact O.step ht (hbr v) (fun _ _ => Iff.rfl) (hw.2 v)

/-- The environment leaves the threads alone. -/
theorem Orderly.env {bs : List Nat} {s : Sys S σ Req Resp} (O : Orderly ok bs s) (a : σ) :
    Orderly ok bs { s with shared := a } :=
  ⟨O.length, O.holder, O.bracketed, O.within⟩

/-- The steps of threads that a schedule takes. -/
def acts (ls : List (Label Req Env Choice)) : Nat := ls.countP Label.isAct

/-- The steps of thread `i` among them. -/
def actsOf (i : Nat) (ls : List (Label Req Env Choice)) : Nat := ls.countP (Label.isActOf i)

/-- The requests that come in. -/
def spawns (ls : List (Label Req Env Choice)) : Nat := ls.countP Label.isSpawn

/-- What the programs of the machine are like. -/
def Punctual (M : Machine S σ Req Resp Env Choice) (ok : S.Op → Prop) (n : Nat) : Prop :=
  ∀ r, (M.body r).Bracketed false ∧ (M.body r).Within ok n

/-- A schedule has brought the budgets `bs` of the threads to `bs'`: each step
    of a thread is paid for from its own, and a request brings `n`. -/
structure Paid (n : Nat) (ls : List (Label Req Env Choice)) (bs bs' : List Nat) : Prop where
  each : ∀ i, actsOf i ls + bs'[i]?.getD n = bs[i]?.getD n
  total : acts ls + bs'.sum = n * spawns ls + bs.sum

theorem paid_nil (n : Nat) (bs : List Nat) : Paid n ([] : List (Label Req Env Choice)) bs bs where
  each i := Nat.zero_add _
  total := by simp [acts, spawns]

/-- What two parts of a run have been paid for, the whole has been paid for. -/
theorem Paid.append {n : Nat} {ls ls' : List (Label Req Env Choice)} {bs bs' bs'' : List Nat}
    (h : Paid n ls bs bs') (h' : Paid n ls' bs' bs'') : Paid n (ls ++ ls') bs bs'' where
  each i := by
    have happ : actsOf i (ls ++ ls') = actsOf i ls + actsOf i ls' := List.countP_append
    have h₁ := h.each i
    have h₂ := h'.each i
    omega
  total := by
    have ha : acts (ls ++ ls') = acts ls + acts ls' := List.countP_append
    have hsp : spawns (ls ++ ls') = spawns ls + spawns ls' := List.countP_append
    have h₁ := h.total
    have h₂ := h'.total
    rw [ha, hsp, Nat.mul_add]
    omega

/-- Every step of a thread is paid for by the request it serves. -/
theorem Orderly.kept {n : Nat} (hp : M.Punctual ok n) {bs : List Nat} {s s' : Sys S σ Req Resp}
    (O : Orderly ok bs s) {l : Label Req Env Choice} {es : List (Event S σ Req Env)}
    (hs : M.step s l = some (es, s')) :
    ∃ bs', Orderly ok bs' s' ∧ Paid n [l] bs bs' := by
  cases l with
  | spawn r =>
      simp only [Machine.step, Option.ite_none_right_eq_some, Option.some.injEq,
        Prod.mk.injEq] at hs
      obtain ⟨-, -, rfl⟩ := hs
      refine ⟨bs ++ [n], O.spawn (hp r).1 (hp r).2, fun i => ?_, ?_⟩
      -- who is not there yet has its budget untouched
      · have hzero : actsOf i [(.spawn r : Label Req Env Choice)] = 0 := rfl
        rw [hzero, Nat.zero_add]
        by_cases hi : i < bs.length
        · rw [List.getElem?_append_left hi]
        · have hle := Nat.le_of_not_lt hi
          rw [List.getElem?_append_right hle, List.getElem?_eq_none hle]
          cases i - bs.length <;> rfl
      · simp [acts, spawns, Label.isAct, Label.isSpawn, Nat.add_comm]
  | act i c =>
      obtain ⟨m, hm, O'⟩ := O.act hs
      refine ⟨bs.set i m, O', fun j => ?_, ?_⟩
      · simp only [actsOf, List.countP_singleton, Label.isActOf, beq_iff_eq]
        by_cases hij : i = j
        · subst hij
          rw [List.getElem?_set_self (List.getElem?_eq_some_iff.mp hm).1, hm, if_pos rfl]
          exact Nat.add_comm 1 m
        · rw [List.getElem?_set_ne hij, if_neg hij, Nat.zero_add]
      · have hsum := sum_set hm m
        simp only [acts, spawns, Label.isAct, Label.isSpawn, List.countP_singleton]
        simp
        omega
  | env e =>
      simp only [Machine.step, Option.map_eq_some_iff] at hs
      obtain ⟨a, -, heq⟩ := hs
      obtain ⟨-, rfl⟩ := Prod.mk.inj heq
      refine ⟨bs, O.env a, fun i => Nat.zero_add _, ?_⟩
      simp [acts, spawns, Label.isAct, Label.isSpawn]

/-- The steps of a schedule are paid for by the requests that came in. -/
theorem Orderly.follow {n : Nat} (hp : M.Punctual ok n) {bs : List Nat} {s s' : Sys S σ Req Resp}
    (O : Orderly ok bs s) {ls : List (Label Req Env Choice)} {h : List (Event S σ Req Env)}
    (hf : M.follow s ls = some (h, s')) :
    ∃ bs', Orderly ok bs' s' ∧ Paid n ls bs bs' := by
  induction ls generalizing s bs h with
  | nil =>
      simp only [Machine.follow, Option.some.injEq, Prod.mk.injEq] at hf
      obtain ⟨-, rfl⟩ := hf
      exact ⟨bs, O, paid_nil n bs⟩
  | cons l ls ih =>
      simp only [Machine.follow, Option.bind_eq_some_iff, Option.map_eq_some_iff] at hf
      obtain ⟨⟨es, s₁⟩, hs, ⟨h', s₂⟩, hrest, heq⟩ := hf
      obtain ⟨-, rfl⟩ := Prod.mk.inj heq
      obtain ⟨bs₁, O₁, h₁⟩ := O.kept hp hs
      obtain ⟨bs₂, O₂, h₂⟩ := ih O₁ hrest
      exact ⟨bs₂, O₂, h₁.append h₂⟩

end Machine

end Webstore.Sched
