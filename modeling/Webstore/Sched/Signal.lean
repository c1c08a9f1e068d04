/-
  Webstore.Sched.Signal

  Threads that a signal can interrupt.  Between any two of its steps a thread
  may be given the signal; it then runs the handler to its end before it goes
  on with what it was doing.  While the handler runs, the signal is blocked on
  that thread.  The handler works on the same resource and takes the same mutex
  as the threads.  The mutex is not recursive: a thread that holds it and asks
  for it waits for itself.
-/
import Webstore.Sched.Prog

namespace Webstore.Sched

variable {S : Sig} {σ Req Choice : Type}

/-- A thread: what is left of the handler, while it runs, and what the thread
    itself has still to do. -/
structure Task (S : Sig) where
  handler : Option (Prog S Unit)
  code : Prog S Unit

namespace Task

/-- What the thread does next. -/
def current (t : Task S) : Prog S Unit := t.handler.getD t.code

/-- The thread has come to `p`. -/
def goOn (t : Task S) (p : Prog S Unit) : Task S :=
  match t.handler with
  | some _ => ⟨some p, t.code⟩
  | none => ⟨none, p⟩

end Task

/-- The resource, the thread that holds the mutex, and the threads. -/
structure Pool (S : Sig) (σ : Type) where
  shared : σ
  holder : Option Nat
  tasks : List (Task S)

/-- What can happen next. -/
inductive Pick (Req Choice : Type) where
  | spawn (r : Req)
  | act (i : Nat) (c : Choice)
  | signal (i : Nat)
deriving DecidableEq

/-- The request a pick starts a thread for, if it does. -/
def Pick.requests : Pick Req Choice → List Req
  | .spawn r => [r]
  | _ => []

/-- What threads do, what the handler does, and what each operation does to the
    resource. -/
structure Signalled (S : Sig) (σ Req Choice : Type) where
  body : Req → Prog S Unit
  handler : Prog S Unit
  exec : (o : S.Op) → σ → Choice → Option (S.Ret o × σ)

namespace Signalled

/-- No thread has been started yet. -/
def init (a : σ) : Pool S σ := ⟨a, none, []⟩

/-- Thread `i` waits for the mutex it holds. -/
def SelfWait (s : Pool S σ) (i : Nat) : Prop :=
  s.holder = some i ∧ ∃ t k, s.tasks[i]? = some t ∧ t.current = .lock k

variable (M : Signalled S σ Req Choice)

/-- The next step of thread `i`; at the end of the handler it returns. -/
def stepTask (s : Pool S σ) (i : Nat) (t : Task S) (c : Choice) :
    Prog S Unit → Option (Pool S σ)
  | .done _ =>
      match t.handler with
      | some _ => some { s with tasks := s.tasks.set i ⟨none, t.code⟩ }
      | none => none
  | .lock k =>
      if s.holder.isNone then
        some { s with holder := some i, tasks := s.tasks.set i (t.goOn k) }
      else none
  | .unlock k => some { s with holder := none, tasks := s.tasks.set i (t.goOn k) }
  | .op o k =>
      (M.exec o s.shared c).map fun vs =>
        { s with shared := vs.2, tasks := s.tasks.set i (t.goOn (k vs.1)) }

/-- One step of the pool. -/
def step (s : Pool S σ) : Pick Req Choice → Option (Pool S σ)
  | .spawn r => some { s with tasks := s.tasks ++ [⟨none, M.body r⟩] }
  | .act i c => s.tasks[i]?.bind fun t => M.stepTask s i t c t.current
  | .signal i => s.tasks[i]?.bind fun t =>
      match t.handler with
      | some _ => none
      | none => some { s with tasks := s.tasks.set i ⟨some M.handler, t.code⟩ }

/-- Take the steps that are picked; what comes back are the states they were
    taken in, each with its pick, and the last state. -/
def follow (s : Pool S σ) :
    List (Pick Req Choice) → Option (List (Pool S σ × Pick Req Choice) × Pool S σ)
  | [] => some ([], s)
  | l :: ls => (M.step s l).bind fun s' => (follow s' ls).map fun r => ((s, l) :: r.1, r.2)

variable {M}

/-- Everything one step can do. -/
theorem step_cases {s s' : Pool S σ} {l : Pick Req Choice} (h : M.step s l = some s') :
    (∃ r, l = .spawn r ∧ s' = { s with tasks := s.tasks ++ [⟨none, M.body r⟩] }) ∨
    (∃ i t, l = .signal i ∧ s.tasks[i]? = some t ∧ t.handler = none ∧
      s' = { s with tasks := s.tasks.set i ⟨some M.handler, t.code⟩ }) ∨
    (∃ i c t a, l = .act i c ∧ s.tasks[i]? = some t ∧ t.handler = some (.done a) ∧
      s' = { s with tasks := s.tasks.set i ⟨none, t.code⟩ }) ∨
    (∃ i c t k, l = .act i c ∧ s.tasks[i]? = some t ∧ t.current = .lock k ∧ s.holder = none ∧
      s' = { s with holder := some i, tasks := s.tasks.set i (t.goOn k) }) ∨
    (∃ i c t k, l = .act i c ∧ s.tasks[i]? = some t ∧ t.current = .unlock k ∧
      s' = { s with holder := none, tasks := s.tasks.set i (t.goOn k) }) ∨
    (∃ i c t o k v b, l = .act i c ∧ s.tasks[i]? = some t ∧ t.current = .op o k ∧
      M.exec o s.shared c = some (v, b) ∧
      s' = { s with shared := b, tasks := s.tasks.set i (t.goOn (k v)) }) := by
  cases l with
  | spawn r =>
      cases h
      exact .inl ⟨r, rfl, rfl⟩
  | signal i =>
      simp only [step, Option.bind_eq_some_iff] at h
      obtain ⟨t, ht, hs⟩ := h
      split at hs
      · cases hs
      · rename_i hnone
        cases hs
        exact .inr (.inl ⟨i, t, rfl, ht, hnone, rfl⟩)
  | act i c =>
      simp only [step, Option.bind_eq_some_iff] at h
      obtain ⟨t, ht, hs⟩ := h
      cases hcur : t.current with
      | done a =>
          rw [hcur] at hs
          simp only [stepTask] at hs
          split at hs
            -- the end of the handler; the thread itself ends for good
          · rename_i p hsome
            cases hs
            have hp : p = .done a := by simpa [Task.current, hsome] using hcur
            exact .inr (.inr (.inl ⟨i, c, t, a, rfl, ht, hsome.trans (by rw [hp]), rfl⟩))
          · cases hs
      | lock k =>
          rw [hcur] at hs
          simp only [stepTask, Option.isNone_iff_eq_none, Option.ite_none_right_eq_some,
            Option.some.injEq] at hs
          obtain ⟨hn, rfl⟩ := hs
          exact .inr (.inr (.inr (.inl ⟨i, c, t, k, rfl, ht, hcur, hn, rfl⟩)))
      | unlock k =>
          rw [hcur] at hs
          cases hs
          exact .inr (.inr (.inr (.inr (.inl ⟨i, c, t, k, rfl, ht, hcur, rfl⟩))))
      | op o k =>
          rw [hcur] at hs
          simp only [stepTask, Option.map_eq_some_iff] at hs
          obtain ⟨⟨v, b⟩, hx, rfl⟩ := hs
          exact .inr (.inr (.inr (.inr (.inr ⟨i, c, t, o, k, v, b, rfl, ht, hcur, hx, rfl⟩))))

/-- The first state of a run is one of its states. -/
theorem first_of_follow {Good : Pool S σ → Prop} {s₀ s : Pool S σ} {ls : List (Pick Req Choice)}
    {past : List (Pool S σ × Pick Req Choice)} (hf : M.follow s₀ ls = some (past, s))
    (hall : (∀ p ∈ past, Good p.1) ∧ Good s) : Good s₀ := by
  cases ls with
  | nil =>
      simp only [follow, Option.some.injEq, Prod.mk.injEq] at hf
      obtain ⟨-, rfl⟩ := hf
      exact hall.2
  | cons l ls =>
      simp only [follow, Option.bind_eq_some_iff, Option.map_eq_some_iff] at hf
      obtain ⟨_, -, _, -, heq⟩ := hf
      obtain ⟨rfl, -⟩ := Prod.mk.inj heq
      exact hall.1 _ List.mem_cons_self

/-- If steps that are `ok` keep `G`, which is all that `Good` needs, and any other
    step ends in a state that is not `Good`, then a run stays in `Good` states
    exactly when all its steps are `ok`. -/
theorem follow_iff (G Good : Pool S σ → Prop) (ok : Pool S σ → Pick Req Choice → Prop)
    (hgood : ∀ s, G s → Good s)
    (hkeep : ∀ s l s', G s → ok s l → M.step s l = some s' → G s')
    (hbad : ∀ s l s', G s → ¬ ok s l → M.step s l = some s' → ¬ Good s')
    {s₀ s : Pool S σ} {ls : List (Pick Req Choice)} {past : List (Pool S σ × Pick Req Choice)}
    (h₀ : G s₀) (hf : M.follow s₀ ls = some (past, s)) :
    ((∀ p ∈ past, Good p.1) ∧ Good s) ↔ ∀ p ∈ past, ok p.1 p.2 := by
  induction ls generalizing s₀ past with
  | nil =>
      simp only [follow, Option.some.injEq, Prod.mk.injEq] at hf
      obtain ⟨rfl, rfl⟩ := hf
      simp [hgood s₀ h₀]
  | cons l ls ih =>
      simp only [follow, Option.bind_eq_some_iff, Option.map_eq_some_iff] at hf
      obtain ⟨s₁, hs, ⟨past', s'⟩, hrest, heq⟩ := hf
      obtain ⟨rfl, rfl⟩ := Prod.mk.inj heq
      simp only [List.forall_mem_cons]
      by_cases hok : ok s₀ l
      · have hG := hkeep s₀ l s₁ h₀ hok hs
        rw [← ih hG hrest]
        simp [hok, hgood s₀ h₀]
      · -- the next state is already wrong
        have hwrong := hbad s₀ l s₁ h₀ hok hs
        constructor
        · rintro ⟨⟨-, hpast⟩, hlast⟩
          exact absurd (first_of_follow hrest ⟨hpast, hlast⟩) hwrong
        · exact fun hall => absurd hall.1 hok

/-- An invariant of the requests so far and the state that every step with a
    `K` pick keeps holds after a run with such picks. -/
theorem follow_keep {G : List Req → Pool S σ → Prop} {K : Pick Req Choice → Prop}
    (hkeep : ∀ rs s l s', G rs s → K l → M.step s l = some s' → G (rs ++ l.requests) s')
    {rs : List Req} {s₀ s : Pool S σ} {ls : List (Pick Req Choice)}
    {past : List (Pool S σ × Pick Req Choice)} (h₀ : G rs s₀) (hok : ∀ l ∈ ls, K l)
    (hf : M.follow s₀ ls = some (past, s)) : G (rs ++ ls.flatMap Pick.requests) s := by
  induction ls generalizing rs s₀ past with
  | nil =>
      cases hf
      simpa using h₀
  | cons l ls ih =>
      simp only [follow, Option.bind_eq_some_iff, Option.map_eq_some_iff] at hf
      obtain ⟨s₁, hs, ⟨past', s'⟩, hrest, heq⟩ := hf
      obtain ⟨rfl, rfl⟩ := Prod.mk.inj heq
      obtain ⟨hl, hls⟩ := List.forall_mem_cons.mp hok
      rw [List.flatMap_cons, ← List.append_assoc]
      exact ih (hkeep rs s₀ l s₁ h₀ hl hs) hls hrest

end Signalled

end Webstore.Sched
