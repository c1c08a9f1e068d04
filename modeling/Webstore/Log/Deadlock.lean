/-
  Webstore.Log.Deadlock

  Whether a thread can wait for the log's own lock.  SIGALRM interrupts a thread
  anywhere, also while it holds `g_log_lock`, and on every fourth alarm the
  handler asks for that lock itself: the thread then waits for itself for ever.
  Nothing else makes a thread do so.
-/
import Webstore.Log

namespace Webstore

open Webstore.Libc Webstore.Sched Webstore.Sched.Signalled

namespace Deadlock

/-- A thread that holds the lock is in the handler, about to test the timer, and
    it is time to flush. -/
def FlushesInside (s : LogPool) : LogPick → Prop
  | .act i _ => s.holder = some i ∧ 4 ≤ s.shared.timer ∧
      ∃ t k, s.tasks[i]? = some t ∧ t.handler = some (.op (S := LogSig) .timerRead k)
  | _ => False

/-- No thread waits for the lock it holds. -/
def NoSelfWait (s : LogPool) : Prop := ∀ i, ¬ SelfWait s i

/-! ## What is left of the handler -/

/-- From the test of the timer on. -/
def alarmTest : Prog LogSig Unit := do
  if (← logOp .timerRead) ≥ 4 then do
    logFlush
    logOp .timerReset
  else return ()

/-- From the test of `g_lf` on. -/
def alarmCheck : Prog LogSig Unit :=
  logOp .isSet >>= fun isSet =>
    (if isSet then do
      logOp .fflush
      Prog.release
    else Prog.release) >>= fun _ => logOp .timerReset

def alarmReset : Prog LogSig Unit := logOp .timerReset

/-- Where the handler can stand; the first argument is whether it holds the lock. -/
inductive Stage : Bool → Prog LogSig Unit → Prop
  | start : Stage false alarmHandler
  | test : Stage false alarmTest
  | wait : Stage false (.lock alarmCheck)
  | check : Stage true alarmCheck
  | flush : Stage true (.op (S := LogSig) .fflush fun _ => .unlock alarmReset)
  | leave : Stage true (.unlock alarmReset)
  | reset : Stage false alarmReset
  | finish : Stage false (.done ())

/-- The handler has not got as far as the lock. -/
inductive Quiet : Prog LogSig Unit → Prop
  | start : Quiet alarmHandler
  | test : Quiet alarmTest
  | finish : Quiet (.done ())

/-- The mutex is taken by who does not have it. -/
theorem Stage.lock {b : Bool} {k : Prog LogSig Unit} (h : Stage b (.lock k)) :
    b = false ∧ Stage true k := by
  generalize hp : Prog.lock k = p at h
  cases h with
  | wait =>
      cases hp
      exact ⟨rfl, .check⟩
  | _ => cases hp

/-- And given back by who has it. -/
theorem Stage.unlock {b : Bool} {k : Prog LogSig Unit} (h : Stage b (.unlock k)) :
    b = true ∧ Stage false k := by
  generalize hp : Prog.unlock k = p at h
  cases h with
  | leave =>
      cases hp
      exact ⟨rfl, .reset⟩
  | _ => cases hp

/-- No operation changes who has it. -/
theorem Stage.op {b : Bool} {o : LogOp} {k : LogOp.Ret o → Prog LogSig Unit}
    (h : Stage b (.op (S := LogSig) o k)) (v : LogOp.Ret o) : Stage b (k v) := by
  generalize hp : Prog.op (S := LogSig) o k = p at h
  cases h with
  | start =>
      cases hp
      exact .test
  | test =>
      cases hp
      -- the timer as it was read: time to flush, or not yet
      show Stage false (if v ≥ 4 then .lock alarmCheck else .done ())
      split
      · exact .wait
      · exact .finish
  | check =>
      cases hp
      cases v with
      | false => exact .leave
      | true => exact .flush
  | flush =>
      cases hp
      exact .leave
  | reset =>
      cases hp
      exact .finish
  | _ => cases hp

/-! ## One thread -/

/-- A thread that holds the lock (`holds`) does so in its own code, with a handler
    that is quiet, or in its handler. -/
def TaskOk (holds : Bool) (t : Task LogSig) : Prop :=
  match t.handler with
  | none => t.code.Bracketed holds
  | some p => t.code.Bracketed false ∧ Stage holds p ∨
      holds = true ∧ t.code.Bracketed true ∧ Quiet p

variable {holds : Bool} {t : Task LogSig}

/-- A handler starts outside of its own section. -/
theorem TaskOk.signal (h : TaskOk holds t) (hn : t.handler = none) :
    TaskOk holds ⟨some alarmHandler, t.code⟩ := by
  unfold TaskOk at h ⊢
  rw [hn] at h
  -- the code is suspended where it is, with or without the lock
  cases holds with
  | false => exact .inl ⟨h, .start⟩
  | true => exact .inr ⟨rfl, h, .start⟩

/-- What was interrupted goes on where it was. -/
theorem TaskOk.return (h : TaskOk holds t) {a : Unit} (hd : t.handler = some (.done a)) :
    TaskOk holds ⟨none, t.code⟩ := by
  unfold TaskOk at h ⊢
  rw [hd] at h
  rcases h with ⟨hcode, hstage⟩ | ⟨rfl, hcode, -⟩
  · cases hstage
    exact hcode
  · exact hcode

theorem current_of_none {p : Prog LogSig Unit} (hn : t.handler = none) (hc : t.current = p) :
    t.code = p ∧ ∀ k, t.goOn k = ⟨none, k⟩ := by
  simp only [Task.current, Task.goOn, hn] at hc ⊢
  exact ⟨hc, fun _ => trivial⟩

theorem current_of_some {p q : Prog LogSig Unit} (hs : t.handler = some q) (hc : t.current = p) :
    q = p ∧ ∀ k, t.goOn k = ⟨some k, t.code⟩ := by
  simp only [Task.current, Task.goOn, hs] at hc ⊢
  exact ⟨hc, fun _ => trivial⟩

/-- A thread asks for the lock only when it does not hold it. -/
theorem TaskOk.lock (h : TaskOk holds t) {k : Prog LogSig Unit} (hc : t.current = .lock k) :
    holds = false ∧ TaskOk true (t.goOn k) := by
  unfold TaskOk at h
  cases hh : t.handler with
  | none =>
      obtain ⟨hcode, hgo⟩ := current_of_none hh hc
      rw [hh] at h
      simp only [hcode] at h
      rw [hgo]
      exact h
  | some q =>
      obtain ⟨rfl, hgo⟩ := current_of_some hh hc
      rw [hh] at h
      rw [hgo]
      -- in its handler: a quiet one never gets to the lock
      rcases h with ⟨hcode, hstage⟩ | ⟨-, -, hquiet⟩
      · obtain ⟨rfl, hk⟩ := hstage.lock
        exact ⟨rfl, .inl ⟨hcode, hk⟩⟩
      · nomatch hquiet

/-- A thread that unlocks had the mutex. -/
theorem TaskOk.unlock (h : TaskOk holds t) {k : Prog LogSig Unit} (hc : t.current = .unlock k) :
    holds = true ∧ TaskOk false (t.goOn k) := by
  unfold TaskOk at h
  cases hh : t.handler with
  | none =>
      obtain ⟨hcode, hgo⟩ := current_of_none hh hc
      rw [hh] at h
      simp only [hcode] at h
      rw [hgo]
      exact h
  | some q =>
      obtain ⟨rfl, hgo⟩ := current_of_some hh hc
      rw [hh] at h
      rw [hgo]
      rcases h with ⟨hcode, hstage⟩ | ⟨-, -, hquiet⟩
      · obtain ⟨rfl, hk⟩ := hstage.unlock
        exact ⟨rfl, .inl ⟨hcode, hk⟩⟩
      · nomatch hquiet

/-- Only a test of the timer that succeeds can disturb a quiet handler. -/
theorem Quiet.op {o : LogOp} {k : LogOp.Ret o → Prog LogSig Unit}
    (h : Quiet (.op (S := LogSig) o k)) {m m' : LogMem} {c : Chance} {v : LogOp.Ret o}
    (hx : LogMem.exec o m c = some (v, m')) (hok : o = .timerRead → m.timer < 4) :
    Quiet (k v) := by
  generalize hp : Prog.op (S := LogSig) o k = p at h
  cases h with
  | start =>
      cases hp
      exact .test
  | test =>
      cases hp
      cases hx
      have hlt := hok rfl
      show Quiet (if m.timer ≥ 4 then .lock alarmCheck else .done ())
      rw [if_neg (by omega)]
      exact .finish
  | finish => cases hp

/-- When it is time to flush, the next thing is the lock. -/
theorem Quiet.read {k : Int → Prog LogSig Unit} (h : Quiet (.op (S := LogSig) .timerRead k))
    {timer : Int} (ht : 4 ≤ timer) : k timer = .lock alarmCheck := by
  generalize hp : Prog.op (S := LogSig) .timerRead k = p at h
  cases h with
  | start => cases hp
  | test =>
      cases hp
      exact if_pos ht
  | finish => cases hp

/-- An operation keeps a thread calm, unless it is the one that flushes inside the
    section. -/
theorem TaskOk.op (h : TaskOk holds t) {o : LogOp} {k : LogOp.Ret o → Prog LogSig Unit}
    (hc : t.current = .op (S := LogSig) o k) {m m' : LogMem} {c : Chance} {v : LogOp.Ret o}
    (hx : LogMem.exec o m c = some (v, m'))
    (hok : holds = true → t.handler = some (.op (S := LogSig) o k) → o = .timerRead →
      m.timer < 4) : TaskOk holds (t.goOn (k v)) := by
  unfold TaskOk at h
  cases hh : t.handler with
  | none =>
      obtain ⟨hcode, hgo⟩ := current_of_none hh hc
      rw [hh] at h
      simp only [hcode] at h
      rw [hgo]
      exact h v
  | some q =>
      obtain ⟨rfl, hgo⟩ := current_of_some hh hc
      rw [hh] at h
      rw [hgo]
      -- the suspended code stays where it is, and the handler goes on
      rcases h with ⟨hcode, hstage⟩ | ⟨hholds, hcode, hquiet⟩
      · exact .inl ⟨hcode, hstage.op v⟩
      · exact .inr ⟨hholds, hcode, hquiet.op hx (hok hholds hh)⟩

/-! ## All threads -/

/-- Every thread is in order, and the holder of the lock is one of them. -/
structure Calm (s : LogPool) : Prop where
  bound : ∀ i, s.holder = some i → i < s.tasks.length
  tasks : ∀ (i : Nat) (t : Task LogSig), s.tasks[i]? = some t → TaskOk (s.holder == some i) t

theorem Calm.no_self_wait {s : LogPool} (h : Calm s) : NoSelfWait s := by
  rintro i ⟨hholder, t, k, ht, hcur⟩
  have hfree := ((h.tasks i t ht).lock hcur).1
  simp [hholder] at hfree

/-- Thread `i` comes to be `t'`, and the others hold the lock as before. -/
theorem Calm.set {s : LogPool} (h : Calm s) {i : Nat} {t t' : Task LogSig}
    (ht : s.tasks[i]? = some t) (m : LogMem) {holder : Option Nat}
    (hb : ∀ j, holder = some j → j < s.tasks.length) (hself : TaskOk (holder == some i) t')
    (hothers : ∀ j ≠ i, (holder == some j) = (s.holder == some j)) :
    Calm ⟨m, holder, s.tasks.set i t'⟩ where
  bound j hj := by
    rw [List.length_set]
    exact hb j hj
  tasks j u hu := by
    rcases getElem?_set_cases hu with ⟨rfl, rfl⟩ | ⟨hji, hu⟩
    · exact hself
    · show TaskOk (holder == some j) u
      rw [hothers j hji]
      exact h.tasks j u hu

/-- A new thread has no mutex. -/
theorem Calm.spawn {s : LogPool} (h : Calm s) (debug : Bool) (calls : List LogCall) :
    Calm { s with tasks := s.tasks ++ [⟨none, runCalls debug calls⟩] } where
  bound i hi := by
    have := h.bound i hi
    simp only [List.length_append, List.length_singleton]
    omega
  tasks i t ht := by
    rcases getElem?_append_singleton ht with ht | ⟨rfl, rfl⟩
    · exact h.tasks i t ht
    -- a new thread cannot be the holder
    · have hne : (s.holder == some s.tasks.length) = false := by
        rw [beq_eq_false_iff_ne]
        intro heq
        exact absurd (h.bound _ heq) (Nat.lt_irrefl _)
      show TaskOk (s.holder == some s.tasks.length) _
      rw [hne]
      exact bracketed_runCalls debug calls

/-- A step that is not such a flush keeps all threads calm. -/
theorem Calm.step {debug : Bool} {s s' : LogPool} {l : LogPick} (h : Calm s)
    (hok : ¬ FlushesInside s l) (hs : (logMachine debug).step s l = some s') : Calm s' := by
  rcases step_cases hs with ⟨calls, rfl, rfl⟩ | ⟨i, t, rfl, ht, hn, rfl⟩ |
    ⟨i, c, t, a, rfl, ht, hd, rfl⟩ | ⟨i, c, t, k, rfl, ht, hc, hn, rfl⟩ |
    ⟨i, c, t, k, rfl, ht, hc, rfl⟩ | ⟨i, c, t, o, k, v, m, rfl, ht, hc, hx, rfl⟩
  · exact h.spawn debug calls
  · exact h.set ht _ h.bound ((h.tasks i t ht).signal hn) fun _ _ => rfl
  · exact h.set ht _ h.bound ((h.tasks i t ht).return hd) fun _ _ => rfl
  · obtain ⟨-, hself⟩ := (h.tasks i t ht).lock hc
    refine h.set ht _ ?_ (by simpa using hself) fun j hj => by simp [hn, Ne.symm hj]
    rintro j ⟨⟩
    exact (List.getElem?_eq_some_iff.mp ht).1
  · obtain ⟨hholds, hself⟩ := (h.tasks i t ht).unlock hc
    have hi : s.holder = some i := by simpa using hholds
    refine h.set ht _ nofun hself fun j hj => by simp [hi, Ne.symm hj]
  · refine h.set ht _ h.bound ((h.tasks i t ht).op hc hx ?_) fun _ _ => rfl
    -- the one operation that can go wrong: the test of the timer in a handler
    -- whose own thread holds the lock
    rintro hholds hh rfl
    have hi : s.holder = some i := by simpa using hholds
    by_contra hlate
    exact hok ⟨hi, by omega, t, k, ht, hh⟩

/-- A flush from the inside makes the thread wait for itself. -/
theorem FlushesInside.self_wait {debug : Bool} {s s' : LogPool} {l : LogPick} (h : Calm s)
    (hf : FlushesInside s l) (hs : (logMachine debug).step s l = some s') : ¬ NoSelfWait s' := by
  cases l with
  | spawn calls => exact hf.elim
  | signal i => exact hf.elim
  | act i c =>
      obtain ⟨hholder, htimer, t, k, ht, hh⟩ := hf
      have htask := h.tasks i t ht
      unfold TaskOk at htask
      rw [hh] at htask
      have hk : k s.shared.timer = .lock alarmCheck := by
        -- a handler that holds the lock itself is past the test
        rcases htask with ⟨-, hstage⟩ | ⟨-, -, hquiet⟩
        · rw [hholder, beq_self_eq_true] at hstage
          nomatch hstage
        · exact hquiet.read htimer
      have hlen := (List.getElem?_eq_some_iff.mp ht).1
      simp only [Signalled.step, ht, Option.bind_some, Task.current, hh, Option.getD_some, stepTask,
        LogMem.exec, Option.map_some, Option.some.injEq] at hs
      subst hs
      intro hno
      refine hno i ⟨hholder, ⟨some (.lock alarmCheck), t.code⟩, alarmCheck, ?_, rfl⟩
      rw [List.getElem?_set_self hlen, hk]
      simp [Task.goOn, hh]

/-- A run stays clear of it exactly as long as no handler finds, on a thread that
    holds the lock, that it is time to flush. -/
theorem no_self_wait_iff {debug : Bool} {mem : LogMem} {ls : List LogPick}
    {past : List (LogPool × LogPick)} {s : LogPool}
    (hf : (logMachine debug).follow (Signalled.init mem) ls = some (past, s)) :
    ((∀ p ∈ past, NoSelfWait p.1) ∧ NoSelfWait s) ↔ ∀ p ∈ past, ¬ FlushesInside p.1 p.2 := by
  have hinit : Calm (Signalled.init mem) := ⟨nofun, nofun⟩
  exact follow_iff Calm NoSelfWait (fun s l => ¬ FlushesInside s l)
    (fun s h => h.no_self_wait) (fun s l s' h hok hs => h.step hok hs)
    (fun s l s' h hok hs => (not_not.mp hok).self_wait h hs) hinit hf

/-! ## Two runs -/

/-- An open log and the timer. -/
def opened (timer : Int) : LogMem := ⟨some 0, [⟨ascii "ws.log", true, []⟩], timer, false⟩

/-- One alarm in the middle of `log_add`, which does not flush, and one after it,
    which does. -/
def calmSchedule : List LogPick :=
  [.spawn [.add 1 (ascii "hello")], goes 0, goes 0, goes 0, goes 0, .signal 0, goes 0, goes 0,
    goes 0, goes 0, goes 0, goes 0, .signal 0, goes 0, goes 0, goes 0, goes 0, goes 0, goes 0,
    goes 0, goes 0]

theorem no_self_wait_calm : ∃ past s,
    (logMachine false).follow (Signalled.init (opened 2)) calmSchedule = some (past, s) ∧
    s.shared =
      ⟨some 0, [⟨ascii "ws.log", true, ascii "210101 000000 000000000 INF hello\n"⟩], 0, false⟩ ∧
    (((∀ p ∈ past, NoSelfWait p.1) ∧ NoSelfWait s) ↔ ∀ p ∈ past, ¬ FlushesInside p.1 p.2) := by
  have hrun : ((logMachine false).follow (Signalled.init (opened 2)) calmSchedule).map
      (fun r => r.2.shared) =
      some ⟨some 0, [⟨ascii "ws.log", true, ascii "210101 000000 000000000 INF hello\n"⟩], 0,
        false⟩ := by
    decide +kernel
  obtain ⟨⟨past, s⟩, hf, hs⟩ := Option.map_eq_some_iff.mp hrun
  exact ⟨past, s, hf, hs, no_self_wait_iff hf⟩

/-- The program asks for the lock. -/
def wantsLock : Prog LogSig Unit → Bool
  | .lock _ => true
  | _ => false

/-- The fourth alarm comes while `log_add` holds the lock. -/
def fourthAlarm : List LogPick :=
  [.spawn [.add 1 (ascii "hello")], goes 0, goes 0, goes 0, .signal 0, goes 0, goes 0]

theorem fourth_alarm_deadlock : ∃ past s,
    (logMachine false).follow (Signalled.init (opened 3)) fourthAlarm = some (past, s) ∧
      ¬ NoSelfWait s := by
  have hrun : ((logMachine false).follow (Signalled.init (opened 3)) fourthAlarm).map
      (fun r => (r.2.holder, r.2.tasks.map fun t => wantsLock t.current)) =
      some (some 0, [true]) := by
    decide +kernel
  obtain ⟨⟨past, s⟩, hf, hs⟩ := Option.map_eq_some_iff.mp hrun
  obtain ⟨hholder, hwants⟩ := Prod.mk.inj hs
  refine ⟨past, s, hf, fun hno => ?_⟩
  obtain ⟨t, ht, hlock⟩ : ∃ t, s.tasks[0]? = some t ∧ wantsLock t.current = true := by
    have hzero := congrArg (·[0]?) hwants
    simpa using hzero
  cases hc : t.current with
  | lock k => exact hno 0 ⟨hholder, t, k, ht, hc⟩
  | _ => simp [hc, wantsLock] at hlock

end Deadlock

end Webstore
