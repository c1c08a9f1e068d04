/-
  Webstore.Log.Lines

  What the log file holds.  Any number of threads add lines and flush, and any
  of them may be interrupted by SIGALRM at any time; as long as the file stays
  open, it holds whole lines, and behind them at most the beginning of one that
  the thread with the lock is printing.  No line is lost, printed twice or torn
  apart, and the lines of a thread stand in the order of its calls.

    * `Place`: where a thread can stand in its calls, what it has printed of a
      line, and which lines it owes.
    * `Written`: the file and the threads together.
-/
import Webstore.Log.Deadlock

namespace Webstore

open Webstore.Libc Webstore.Sched Webstore.Sched.Signalled

namespace Lines

/-! ## Lines -/

/-- A line but for the time. -/
structure Entry where
  lPtr : Bytes
  msg : Bytes
deriving DecidableEq

/-- The line, up to the message. -/
def Entry.header (e : Entry) (timestamp : Bytes) : Bytes :=
  timestamp ++ ascii " " ++ e.lPtr ++ ascii " "

/-- The line as it is printed. -/
def Entry.text (e : Entry) (timestamp : Bytes) : Bytes :=
  e.header timestamp ++ e.msg ++ ascii "\n"

/-- What a call adds to the log. -/
def entryOf (debug : Bool) : LogCall → Option Entry
  | .add level msg => (levelStr debug level).map fun lPtr => ⟨lPtr, msg⟩
  | _ => none

/-- What a thread's calls add to the log. -/
def entries (debug : Bool) (calls : List LogCall) : List Entry := calls.filterMap (entryOf debug)

/-- The file is neither opened nor closed. -/
def Logs : LogCall → Prop
  | .add _ _ => True
  | .flush => True
  | _ => False

/-- A line that was printed. -/
structure Line where
  tid : Nat
  timestamp : Bytes
  entry : Entry

def Line.text (l : Line) : Bytes := l.entry.text l.timestamp

/-- The lines of thread `i`. -/
def linesOf (i : Nat) (lines : List Line) : List Entry :=
  (lines.filter fun l => l.tid == i).map Line.entry

theorem linesOf_concat_self (lines : List Line) (l : Line) :
    linesOf l.tid (lines ++ [l]) = linesOf l.tid lines ++ [l.entry] := by
  simp [linesOf]

theorem linesOf_concat_ne {i : Nat} {l : Line} (h : l.tid ≠ i) (lines : List Line) :
    linesOf i (lines ++ [l]) = linesOf i lines := by
  simp [linesOf, h]

/-! ## Where a thread can stand -/

variable (debug : Bool) (rest : List LogCall)

def printEnd : Prog LogSig Unit :=
  .op (S := LogSig) (.fprintf (ascii "\n")) fun _ => .unlock (runCalls debug rest)

def printMsg (e : Entry) : Prog LogSig Unit :=
  .op (S := LogSig) (.fprintf e.msg) fun _ => printEnd debug rest

def printHeader (e : Entry) (timestamp : Bytes) : Prog LogSig Unit :=
  .op (S := LogSig) (.fprintf (e.header timestamp)) fun _ => printMsg debug rest e

def takeTime (e : Entry) : Prog LogSig Unit :=
  .op (S := LogSig) .timestamp fun timestamp => .lock (printHeader debug rest e timestamp)

def flushFile : Prog LogSig Unit :=
  .op (S := LogSig) .fflush fun _ => .unlock (runCalls debug rest)

def flushCheck : Prog LogSig Unit :=
  .op (S := LogSig) .isSet fun isSet =>
    if isSet then flushFile debug rest else .unlock (runCalls debug rest)

/-- A call of `log_add`, step by step. -/
theorem runCalls_add (level : Int) (msg : Bytes) :
    runCalls debug (.add level msg :: rest) = .op (S := LogSig) .isSet fun isSet =>
      if isSet = false then runCalls debug rest
      else
        match entryOf debug (.add level msg) with
        | none => runCalls debug rest
        | some e => takeTime debug rest e := by
  refine congrArg (Prog.op (S := LogSig) .isSet) (funext fun isSet => ?_)
  cases isSet with
  | false => rfl
  | true => cases h : levelStr debug level <;> simp [entryOf, h] <;> rfl

theorem runCalls_flush :
    runCalls debug (.flush :: rest) = .lock (flushCheck debug rest) := by
  refine congrArg Prog.lock (congrArg (Prog.op (S := LogSig) .isSet) (funext fun isSet => ?_))
  cases isSet <;> rfl

/-- A thread of calls `Logs`: whether it has the lock, what it has printed of
    its line, which lines it has still to finish, and its program. -/
inductive Place : Bool → Bytes → List Entry → Prog LogSig Unit → Prop where
  | next {rest : List LogCall} (h : ∀ c ∈ rest, Logs c) :
      Place false [] (entries debug rest) (runCalls debug rest)
  | time {rest : List LogCall} (h : ∀ c ∈ rest, Logs c) (e : Entry) :
      Place false [] (e :: entries debug rest) (takeTime debug rest e)
  | wait {rest : List LogCall} (h : ∀ c ∈ rest, Logs c) (e : Entry) (timestamp : Bytes) :
      Place false [] (e :: entries debug rest) (.lock (printHeader debug rest e timestamp))
  | header {rest : List LogCall} (h : ∀ c ∈ rest, Logs c) (e : Entry) (timestamp : Bytes) :
      Place true [] (e :: entries debug rest) (printHeader debug rest e timestamp)
  | msg {rest : List LogCall} (h : ∀ c ∈ rest, Logs c) (e : Entry) (timestamp : Bytes) :
      Place true (e.header timestamp) (e :: entries debug rest) (printMsg debug rest e)
  | newline {rest : List LogCall} (h : ∀ c ∈ rest, Logs c) (e : Entry) (timestamp : Bytes) :
      Place true (e.header timestamp ++ e.msg) (e :: entries debug rest) (printEnd debug rest)
  | check {rest : List LogCall} (h : ∀ c ∈ rest, Logs c) :
      Place true [] (entries debug rest) (flushCheck debug rest)
  | flush {rest : List LogCall} (h : ∀ c ∈ rest, Logs c) :
      Place true [] (entries debug rest) (flushFile debug rest)
  | leave {rest : List LogCall} (h : ∀ c ∈ rest, Logs c) :
      Place true [] (entries debug rest) (.unlock (runCalls debug rest))

variable {debug : Bool} {rest : List LogCall} {b : Bool} {p : Bytes} {owed : List Entry}

/-- How a thread goes on from between two calls. -/
theorem runCalls_cases (debug : Bool) (h : ∀ c ∈ rest, Logs c) :
    (rest = [] ∧ runCalls debug rest = .done ()) ∨
    (∃ rest', (∀ c ∈ rest', Logs c) ∧ entries debug rest = entries debug rest' ∧
      runCalls debug rest = .lock (flushCheck debug rest')) ∨
    (∃ o rest', (∀ c ∈ rest', Logs c) ∧ entries debug rest = o.toList ++ entries debug rest' ∧
      runCalls debug rest = .op (S := LogSig) .isSet fun isSet =>
        if isSet = false then runCalls debug rest'
        else
          match o with
          | none => runCalls debug rest'
          | some e => takeTime debug rest' e) := by
  cases rest with
  | nil => exact .inl ⟨rfl, rfl⟩
  | cons c rest =>
      obtain ⟨hc, hrest⟩ := List.forall_mem_cons.mp h
      cases c with
      | add level msg =>
          have hadd := runCalls_add debug rest level msg
          refine .inr (.inr ⟨entryOf debug (.add level msg), rest, hrest, ?_, hadd⟩)
          simp only [entries, List.filterMap_cons]
          cases entryOf debug (.add level msg) <;> rfl
      | flush => exact .inr (.inl ⟨rest, hrest, rfl, runCalls_flush debug rest⟩)
      | openFile logfile => exact hc.elim
      | close => exact hc.elim

/-- A thread that takes the mutex has nothing half written. -/
theorem Place.lock {k : Prog LogSig Unit} (h : Place debug b p owed (.lock k)) :
    b = false ∧ p = [] ∧ Place debug true [] owed k := by
  generalize hq : Prog.lock k = q at h
  cases h with
  | next h =>
      rcases runCalls_cases debug h with ⟨-, hrun⟩ | ⟨rest', h', hent, hrun⟩ | ⟨_, _, -, -, hrun⟩
      · cases hq.trans hrun
      · cases hq.trans hrun
        exact ⟨rfl, rfl, hent ▸ .check h'⟩
      · cases hq.trans hrun
  | wait h e timestamp =>
      cases hq
      exact ⟨rfl, rfl, .header h e timestamp⟩
  | _ => cases hq

/-- A thread that gives it back has written its line to the end. -/
theorem Place.unlock {k : Prog LogSig Unit} (h : Place debug b p owed (.unlock k)) :
    b = true ∧ p = [] ∧ Place debug false [] owed k := by
  generalize hq : Prog.unlock k = q at h
  cases h with
  | next h =>
      rcases runCalls_cases debug h with ⟨-, hrun⟩ | ⟨_, _, -, hrun⟩ | ⟨_, _, -, -, hrun⟩ <;>
        cases hq.trans hrun
  | leave h =>
      cases hq
      exact ⟨rfl, rfl, .next h⟩
  | _ => cases hq

/-- Without the lock nothing of a line is printed. -/
theorem Place.outside {q : Prog LogSig Unit} (h : Place debug false p owed q) : p = [] := by
  cases h <;> rfl

/-- What an operation prints. -/
def printed : LogOp → Bytes
  | .fprintf text => text
  | _ => []

/-- Operations that leave the file open. -/
def Steady : LogOp → Prop
  | .fopen _ => False
  | .fclose => False
  | _ => True

/-- An operation goes on with the line, or ends it.  What a thread prints it
    prints with the lock. -/
theorem Place.op {o : LogOp} {k : LogOp.Ret o → Prog LogSig Unit}
    (h : Place debug b p owed (.op (S := LogSig) o k)) {v : LogOp.Ret o} {m m' : LogMem}
    {c : Chance}
    (hx : LogMem.exec o m c = some (v, m')) (hset : m.lf.isSome = true) :
    Steady o ∧ (b = false → printed o = []) ∧
    (Place debug b (p ++ printed o) owed (k v) ∨
      b = true ∧ ∃ e timestamp owed', owed = e :: owed' ∧ p ++ printed o = e.text timestamp ∧
        Place debug b [] owed' (k v)) := by
  generalize hq : Prog.op (S := LogSig) o k = q at h
  cases h with
  | next h =>
      rcases runCalls_cases debug h with ⟨-, hrun⟩ | ⟨_, _, -, hrun⟩ | ⟨o, rest', h', hent, hrun⟩
      · cases hq.trans hrun
      · cases hq.trans hrun
      · cases hq.trans hrun
        cases hx
        refine ⟨trivial, fun _ => rfl, .inl ?_⟩
        rw [hset, hent]
        -- a level without a text: the call is over
        cases o with
        | none => exact .next h'
        | some e => exact .time h' e
  | time h e =>
      cases hq
      exact ⟨trivial, fun _ => rfl, .inl (.wait h e v)⟩
  | header h e timestamp =>
      cases hq
      exact ⟨trivial, nofun, .inl (.msg h e timestamp)⟩
  | msg h e timestamp =>
      cases hq
      exact ⟨trivial, nofun, .inl (.newline h e timestamp)⟩
  | newline h e timestamp =>
      cases hq
      exact ⟨trivial, nofun, .inr ⟨rfl, e, timestamp, _, rfl, rfl, .leave h⟩⟩
  | check h =>
      cases hq
      cases hx
      refine ⟨trivial, nofun, .inl ?_⟩
      rw [hset]
      exact .flush h
  | flush h =>
      cases hq
      exact ⟨trivial, nofun, .inl (.leave h)⟩
  | _ => cases hq

/-! ## The file -/

/-- `g_lf` is the open file `name`, to which `text` was printed. -/
structure OnFile (m : LogMem) (n : Nat) (name text : Bytes) : Prop where
  lf : m.lf = some n
  file : m.files[n]? = some ⟨name, true, text⟩

variable {m m' : LogMem} {n : Nat} {name text : Bytes}

theorem OnFile.onFile (h : OnFile m n name text) (f : LogFile → LogFile) :
    m.onFile f = some { m with files := m.files.set n (f ⟨name, true, text⟩) } := by
  simp [LogMem.onFile, h.lf, h.file]

/-- Only what is printed changes the text of the file. -/
theorem OnFile.exec (h : OnFile m n name text) {o : LogOp} (ho : Steady o) {c : Chance}
    {v : LogOp.Ret o} (hx : LogMem.exec o m c = some (v, m')) :
    OnFile m' n name (text ++ printed o) := by
  have hlen := (List.getElem?_eq_some_iff.mp h.file).1
  cases o with
  | fopen logfile => exact ho.elim
  | fclose => exact ho.elim
  | fprintf text' =>
      simp only [LogMem.exec, h.onFile, Option.map_some] at hx
      cases hx
      exact ⟨h.lf, List.getElem?_set_self hlen⟩
  | fflush =>
      simp only [LogMem.exec, h.onFile, Option.map_some] at hx
      cases hx
      exact ⟨h.lf, by simp [printed, hlen]⟩
  | _ =>
      cases hx
      exact ⟨h.lf, h.file.trans (by simp [printed])⟩

/-! ## One thread -/

/-- Whether thread and handler together have the lock: not both of them do. -/
def HandlerOk (holds b : Bool) : Option (Prog LogSig Unit) → Prop
  | none => holds = b
  | some q => ∃ b', Deadlock.Stage b' q ∧ holds = (b || b') ∧ (b && b') = false

/-- A thread that makes `calls` and has finished the lines `done`. -/
def TaskOk (debug : Bool) (calls : List LogCall) (done : List Entry) (mid : Bytes) (holds : Bool)
    (t : Task LogSig) : Prop :=
  ∃ b p owed, Place debug b p owed t.code ∧ done ++ owed = entries debug calls ∧
    HandlerOk holds b t.handler ∧ (holds = true → mid = p)

variable {calls : List LogCall} {done : List Entry} {mid mid' : Bytes} {holds : Bool}
  {t : Task LogSig}

theorem TaskOk.mono (h : TaskOk debug calls done mid holds t) (hmid : holds = true → mid' = mid) :
    TaskOk debug calls done mid' holds t := by
  obtain ⟨b, p, owed, hp, howed, hh, hmp⟩ := h
  exact ⟨b, p, owed, hp, howed, hh, fun hholds => (hmid hholds).trans (hmp hholds)⟩

theorem TaskOk.signal (h : TaskOk debug calls done mid holds t) (hn : t.handler = none) :
    TaskOk debug calls done mid holds ⟨some alarmHandler, t.code⟩ := by
  obtain ⟨b, p, owed, hp, howed, hh, hmp⟩ := h
  rw [hn] at hh
  obtain rfl : holds = b := hh
  exact ⟨holds, p, owed, hp, howed, ⟨false, .start, by simp, by simp⟩, hmp⟩

/-- A handler has printed nothing. -/
theorem TaskOk.return (h : TaskOk debug calls done mid holds t) {a : Unit}
    (hd : t.handler = some (.done a)) : TaskOk debug calls done mid holds ⟨none, t.code⟩ := by
  obtain ⟨b, p, owed, hp, howed, hh, hmp⟩ := h
  rw [hd] at hh
  obtain ⟨b', hstage, hholds, -⟩ := hh
  cases hstage
  rw [Bool.or_false] at hholds
  exact ⟨b, p, owed, hp, howed, hholds, hmp⟩

/-- Who takes the mutex begins a line. -/
theorem TaskOk.lock (h : TaskOk debug calls done mid false t) {k : Prog LogSig Unit}
    (hc : t.current = .lock k) : TaskOk debug calls done [] true (t.goOn k) := by
  obtain ⟨b, p, owed, hp, howed, hh, -⟩ := h
  cases hn : t.handler with
  | none =>
      obtain ⟨hcode, hgo⟩ := Deadlock.current_of_none hn hc
      rw [hcode] at hp
      obtain ⟨-, rfl, hk⟩ := hp.lock
      rw [hgo]
      exact ⟨true, [], owed, hk, howed, rfl, fun _ => rfl⟩
  | some q =>
      obtain ⟨rfl, hgo⟩ := Deadlock.current_of_some hn hc
      rw [hn] at hh
      obtain ⟨b', hstage, hholds, -⟩ := hh
      obtain ⟨rfl, rfl⟩ : b = false ∧ b' = false := by simpa using hholds.symm
      have hnil : p = [] := hp.outside
      rw [hgo]
      exact ⟨false, p, owed, hp, howed, ⟨true, hstage.lock.2, rfl, rfl⟩, fun _ => hnil.symm⟩

/-- Who gives it back has no line begun. -/
theorem TaskOk.unlock (h : TaskOk debug calls done mid holds t) {k : Prog LogSig Unit}
    (hc : t.current = .unlock k) :
    holds = true ∧ mid = [] ∧ TaskOk debug calls done [] false (t.goOn k) := by
  obtain ⟨b, p, owed, hp, howed, hh, hmp⟩ := h
  cases hn : t.handler with
  | none =>
      obtain ⟨hcode, hgo⟩ := Deadlock.current_of_none hn hc
      rw [hcode] at hp
      obtain ⟨rfl, rfl, hk⟩ := hp.unlock
      rw [hn] at hh
      obtain rfl : holds = true := hh
      rw [hgo]
      exact ⟨rfl, hmp rfl, false, [], owed, hk, howed, rfl, nofun⟩
  | some q =>
      obtain ⟨rfl, hgo⟩ := Deadlock.current_of_some hn hc
      rw [hn] at hh
      obtain ⟨b', hstage, hholds, hboth⟩ := hh
      obtain ⟨rfl, hk⟩ := hstage.unlock
      obtain rfl : b = false := by simpa using hboth
      obtain rfl : holds = true := by simpa using hholds
      rw [hgo]
      exact ⟨rfl, (hmp rfl).trans hp.outside, false, p, owed, hp, howed,
        ⟨false, hk, rfl, rfl⟩, nofun⟩

theorem steady_of_stage {b : Bool} {o : LogOp} {k : LogOp.Ret o → Prog LogSig Unit}
    (h : Deadlock.Stage b (.op (S := LogSig) o k)) : Steady o ∧ printed o = [] := by
  generalize hq : Prog.op (S := LogSig) o k = q at h
  cases h <;> cases hq <;> exact ⟨trivial, rfl⟩

/-- An operation of a thread, or of its handler. -/
theorem TaskOk.op (h : TaskOk debug calls done mid holds t) {o : LogOp}
    {k : LogOp.Ret o → Prog LogSig Unit} (hc : t.current = .op (S := LogSig) o k)
    {v : LogOp.Ret o} {c : Chance} (hx : LogMem.exec o m c = some (v, m'))
    (hset : m.lf.isSome = true) :
    Steady o ∧ (holds = false → printed o = []) ∧
    (TaskOk debug calls done (mid ++ printed o) holds (t.goOn (k v)) ∨
      holds = true ∧ ∃ e timestamp, mid ++ printed o = e.text timestamp ∧
        TaskOk debug calls (done ++ [e]) [] holds (t.goOn (k v))) := by
  obtain ⟨b, p, owed, hp, howed, hh, hmp⟩ := h
  -- the program goes on, or the handler does, which prints nothing
  cases hn : t.handler with
  | none =>
      obtain ⟨hcode, hgo⟩ := Deadlock.current_of_none hn hc
      rw [hcode] at hp
      rw [hn] at hh
      obtain rfl : holds = b := hh
      obtain ⟨ho, hquiet, hp⟩ := hp.op hx hset
      rw [hgo]
      refine ⟨ho, hquiet, ?_⟩
      rcases hp with hp | ⟨rfl, e, timestamp, owed', rfl, htext, hp⟩
      · refine .inl ⟨holds, _, owed, hp, howed, rfl, fun hholds => ?_⟩
        rw [hmp hholds]
      · refine .inr ⟨rfl, e, timestamp, hmp rfl ▸ htext, true, [], owed', hp, ?_, rfl, fun _ => rfl⟩
        rw [List.append_assoc, List.singleton_append, howed]
  | some q =>
      obtain ⟨rfl, hgo⟩ := Deadlock.current_of_some hn hc
      rw [hn] at hh
      obtain ⟨b', hstage, hholds, hboth⟩ := hh
      obtain ⟨ho, hprinted⟩ := steady_of_stage hstage
      rw [hgo, hprinted, List.append_nil]
      exact ⟨ho, fun _ => rfl, .inl ⟨b, p, owed, hp, howed, ⟨b', hstage.op v, hholds, hboth⟩, hmp⟩⟩

/-! ## All threads -/

/-- The file holds `lines` and the beginning `mid` of the next one, and every
    thread has finished the lines in `lines` that are its own. -/
structure Written (debug : Bool) (n : Nat) (name before : Bytes) (spawned : List (List LogCall))
    (s : LogPool) (lines : List Line) (mid : Bytes) : Prop where
  file : OnFile s.shared n name (before ++ (lines.map Line.text).flatten ++ mid)
  rest : s.holder = none → mid = []
  bound : ∀ i, s.holder = some i → i < s.tasks.length
  count : s.tasks.length = spawned.length
  tids : ∀ l ∈ lines, l.tid < s.tasks.length
  tasks : ∀ (i : Nat) (t : Task LogSig), s.tasks[i]? = some t → ∃ calls, spawned[i]? = some calls ∧
    TaskOk debug calls (linesOf i lines) mid (s.holder == some i) t

variable {before : Bytes} {spawned : List (List LogCall)} {s s' : LogPool}
  {lines lines' : List Line}

/-- Thread `i` comes to be `t'`, and for the others nothing has changed. -/
theorem Written.set (H : Written debug n name before spawned s lines mid) {i : Nat}
    {t' : Task LogSig} (ht : s.tasks[i]? = some t) (hcalls : spawned[i]? = some calls)
    {holder : Option Nat}
    (hfile : OnFile m n name (before ++ (lines'.map Line.text).flatten ++ mid'))
    (hrest : holder = none → mid' = []) (hb : ∀ j, holder = some j → j < s.tasks.length)
    (htids : ∀ l ∈ lines', l.tid < s.tasks.length)
    (hself : TaskOk debug calls (linesOf i lines') mid' (holder == some i) t')
    (hothers : ∀ j ≠ i, linesOf j lines' = linesOf j lines ∧
      (holder == some j) = (s.holder == some j) ∧ (s.holder = some j → mid' = mid)) :
    Written debug n name before spawned ⟨m, holder, s.tasks.set i t'⟩ lines' mid' where
  file := hfile
  rest := hrest
  bound := by simpa using hb
  count := by simpa using H.count
  tids := by simpa using htids
  tasks := by
    intro j u hu
    rcases getElem?_set_cases hu with ⟨rfl, rfl⟩ | ⟨hji, hu⟩
    · exact ⟨calls, hcalls, hself⟩
    · obtain ⟨calls, hcalls, hok⟩ := H.tasks j u hu
      obtain ⟨hlines, hholder, hmid⟩ := hothers j hji
      refine ⟨calls, hcalls, ?_⟩
      rw [hlines]
      show TaskOk debug calls _ _ (holder == some j) u
      rw [hholder]
      exact hok.mono fun hholds => hmid (by simpa using hholds)

/-- A new thread has written nothing. -/
theorem Written.spawn (H : Written debug n name before spawned s lines mid)
    (hcalls : ∀ c ∈ calls, Logs c) :
    Written debug n name before (spawned ++ [calls])
      { s with tasks := s.tasks ++ [⟨none, runCalls debug calls⟩] } lines mid where
  file := H.file
  rest := H.rest
  bound := by
    intro i hi
    have := H.bound i hi
    simp only [List.length_append, List.length_singleton]
    omega
  count := by simp [H.count]
  tids := by
    intro l hl
    have := H.tids l hl
    simp only [List.length_append, List.length_singleton]
    omega
  tasks := by
    intro i t ht
    rcases getElem?_append_singleton ht with ht | ⟨rfl, rfl⟩
    · obtain ⟨calls', hcalls', hok⟩ := H.tasks i t ht
      refine ⟨calls', ?_, hok⟩
      rw [List.getElem?_append_left (List.getElem?_eq_some_iff.mp hcalls').1, hcalls']
    -- a new thread has printed nothing, and has not got the lock
    · have hne : (s.holder == some s.tasks.length) = false := by
        rw [beq_eq_false_iff_ne]
        exact fun heq => absurd (H.bound _ heq) (Nat.lt_irrefl _)
      have hnone : linesOf s.tasks.length lines = [] := by
        simp only [linesOf, List.map_eq_nil_iff, List.filter_eq_nil_iff, beq_iff_eq]
        exact fun l hl => Nat.ne_of_lt (H.tids l hl)
      refine ⟨calls, by simp [H.count], ?_⟩
      show TaskOk debug calls _ _ (s.holder == some s.tasks.length) _
      rw [hne, hnone]
      exact ⟨false, [], entries debug calls, .next hcalls, rfl, rfl, nofun⟩

/-- One step adds to the line that is begun, ends it, or leaves it. -/
theorem Written.step (H : Written debug n name before spawned s lines mid) {l : LogPick}
    (hok : ∀ calls ∈ l.requests, ∀ c ∈ calls, Logs c)
    (hs : (logMachine debug).step s l = some s') :
    ∃ lines' mid', Written debug n name before (spawned ++ l.requests) s' lines' mid' := by
  rcases step_cases hs with ⟨calls, rfl, rfl⟩ | ⟨i, t, rfl, ht, hn, rfl⟩ |
    ⟨i, c, t, a, rfl, ht, hd, rfl⟩ | ⟨i, c, t, k, rfl, ht, hc, hn, rfl⟩ |
    ⟨i, c, t, k, rfl, ht, hc, rfl⟩ | ⟨i, c, t, o, k, v, m, rfl, ht, hc, hx, rfl⟩
  · -- a thread is created
    exact ⟨lines, mid, H.spawn (hok calls (List.mem_singleton_self calls))⟩
  all_goals
    simp only [Pick.requests, List.append_nil]
    obtain ⟨calls, hcalls, htask⟩ := H.tasks i t ht
  · -- a signal comes
    exact ⟨lines, mid, H.set ht hcalls H.file H.rest H.bound H.tids (htask.signal hn)
      fun _ _ => ⟨rfl, rfl, fun _ => rfl⟩⟩
  · -- its handler returns
    exact ⟨lines, mid, H.set ht hcalls H.file H.rest H.bound H.tids (htask.return hd)
      fun _ _ => ⟨rfl, rfl, fun _ => rfl⟩⟩
  · -- the mutex is taken; no line is begun
    obtain rfl := H.rest hn
    have hfree : (s.holder == some i) = false := by rw [hn]; rfl
    rw [hfree] at htask
    refine ⟨lines, [], H.set ht hcalls H.file nofun ?_ H.tids ?_ fun j hj =>
      ⟨rfl, by simp [hn, Ne.symm hj], fun _ => rfl⟩⟩
    · rintro j ⟨⟩
      exact (List.getElem?_eq_some_iff.mp ht).1
    · rw [beq_self_eq_true]
      exact htask.lock hc
  · -- it is given back; the line is complete
    obtain ⟨hholds, rfl, hself⟩ := htask.unlock hc
    have hi : s.holder = some i := by simpa using hholds
    exact ⟨lines, [], H.set ht hcalls H.file (fun _ => rfl) nofun H.tids hself
      fun j hj => ⟨rfl, by simp [hi, Ne.symm hj], fun _ => rfl⟩⟩
  · -- something is printed: more of a line, or its end
    obtain ⟨ho, hquiet, hself⟩ := htask.op hc hx (by rw [H.file.lf]; rfl)
    have hfile := H.file.exec ho hx
    rcases hself with hself | ⟨hholds, e, timestamp, htext, hself⟩
    · -- who has no lock prints nothing
      have hother : s.holder ≠ some i → mid ++ printed o = mid := by
        intro hne
        rw [hquiet (by simpa using hne), List.append_nil]
      refine ⟨lines, mid ++ printed o, H.set ht hcalls ?_ ?_ H.bound H.tids hself fun j hj =>
        ⟨rfl, rfl, fun hj' => hother fun hi => hj (Option.some.inj (hj'.symm.trans hi))⟩⟩
      · rw [← List.append_assoc]
        exact hfile
      · intro hnone
        have hnone' : s.holder = none := hnone
        rw [hother (by rw [hnone']; nofun), H.rest hnone']
    · have hi : s.holder = some i := by simpa using hholds
      refine ⟨lines ++ [⟨i, timestamp, e⟩], [], H.set ht hcalls ?_ (fun _ => rfl) H.bound ?_ ?_
        fun j hj => ⟨linesOf_concat_ne (Ne.symm hj) lines, rfl, fun hj' => ?_⟩⟩
      · have heq : before ++ ((lines ++ [(⟨i, timestamp, e⟩ : Line)]).map Line.text).flatten ++ [] =
            before ++ (lines.map Line.text).flatten ++ mid ++ printed o := by
          rw [List.append_assoc _ mid, htext]
          simp [Line.text]
        rw [heq]
        exact hfile
      · intro l hl
        rcases List.mem_append.mp hl with hl | hl
        · exact H.tids l hl
        · rw [List.mem_singleton.mp hl]
          exact H.bound i hi
      · rw [linesOf_concat_self lines ⟨i, timestamp, e⟩]
        exact hself
      · exact absurd (Option.some.inj (hj'.symm.trans hi)) hj

/-- Who has finished owes no more lines. -/
theorem Place.finished {a : Unit} (h : Place debug b p owed (.done a)) : owed = [] := by
  generalize hq : Prog.done a = q at h
  cases h with
  | next h =>
      rcases runCalls_cases debug h with ⟨rfl, -⟩ | ⟨_, _, -, hrun⟩ | ⟨_, _, -, -, hrun⟩
      · rfl
      · cases hq.trans hrun
      · cases hq.trans hrun
  | _ => cases hq

/-- What was printed of a line is the beginning of the next one that is owed. -/
theorem Place.begun {q : Prog LogSig Unit} (h : Place debug b p owed q) (hp : p ≠ []) :
    ∃ e timestamp owed', owed = e :: owed' ∧ p <+: e.text timestamp := by
  cases h with
  | msg h e timestamp =>
      refine ⟨e, timestamp, _, rfl, ?_⟩
      rw [Entry.text, List.append_assoc]
      exact List.prefix_append _ _
  | newline h e timestamp => exact ⟨e, timestamp, _, rfl, List.prefix_append _ _⟩
  | _ => exact absurd rfl hp

/-- The lines are those of the threads, each thread's in the order of its
    calls, and `mid` is the beginning of one more, of the thread with the lock. -/
structure WholeLines (debug : Bool) (spawned : List (List LogCall)) (s : LogPool)
    (lines : List Line) (mid : Bytes) : Prop where
  tids : ∀ l ∈ lines, l.tid < spawned.length
  own : ∀ (i : Nat) (calls : List LogCall), spawned[i]? = some calls →
    linesOf i lines <+: entries debug calls
  /-- A thread that has come to its end has all its lines in the file. -/
  finished : ∀ (i : Nat) (t : Task LogSig) (calls : List LogCall), s.tasks[i]? = some t →
    spawned[i]? = some calls → t.code.isDone = true → linesOf i lines = entries debug calls
  begun : mid ≠ [] → ∃ i calls e timestamp, s.holder = some i ∧ spawned[i]? = some calls ∧
    linesOf i lines ++ [e] <+: entries debug calls ∧ mid <+: e.text timestamp

/-- What is in the file are whole lines and the beginning of one. -/
theorem Written.wholeLines (H : Written debug n name before spawned s lines mid) :
    WholeLines debug spawned s lines mid where
  tids := H.count ▸ H.tids
  own := by
    intro i calls hcalls
    have hlt : i < s.tasks.length := H.count ▸ (List.getElem?_eq_some_iff.mp hcalls).1
    obtain ⟨calls', hcalls', -, -, owed, -, howed, -⟩ :=
      H.tasks i _ (List.getElem?_eq_getElem hlt)
    obtain rfl : calls = calls' := Option.some.inj (hcalls.symm.trans hcalls')
    exact ⟨owed, howed⟩
  finished := by
    intro i t calls ht hcalls hdone
    obtain ⟨calls', hcalls', b, p, owed, hp, howed, -⟩ := H.tasks i t ht
    obtain rfl : calls = calls' := Option.some.inj (hcalls.symm.trans hcalls')
    obtain ⟨a, hcode⟩ := Prog.isDone_iff.mp hdone
    rw [hcode] at hp
    rw [← howed, hp.finished, List.append_nil]
  begun := by
    intro hmid
    -- a line that is begun belongs to the thread with the mutex
    obtain ⟨i, hi⟩ := Option.ne_none_iff_exists'.mp fun hnone => hmid (H.rest hnone)
    obtain ⟨calls, hcalls, b, p, owed, hp, howed, -, hmp⟩ :=
      H.tasks i _ (List.getElem?_eq_getElem (H.bound i hi))
    obtain rfl : mid = p := hmp (by simpa using hi)
    obtain ⟨e, timestamp, owed', rfl, hprefix⟩ := hp.begun hmid
    refine ⟨i, calls, e, timestamp, hi, hcalls, ⟨owed', ?_⟩, hprefix⟩
    rw [List.append_assoc, List.singleton_append, howed]

/-- As long as nobody opens or closes the log, it holds whole lines behind what
    it held before, and the beginning of one more while its thread has the
    lock.  That is so in every state of every run, whatever alarms come. -/
theorem log_lines (hlog : OnFile m n name before) {ls : List LogPick}
    (hcalls : ∀ calls ∈ ls.flatMap Pick.requests, ∀ c ∈ calls, Logs c)
    {past : List (LogPool × LogPick)}
    (hf : (logMachine debug).follow (Signalled.init m) ls = some (past, s)) :
    ∃ lines mid, OnFile s.shared n name (before ++ (lines.map Line.text).flatten ++ mid) ∧
      (s.holder = none → mid = []) ∧
        WholeLines debug (ls.flatMap Pick.requests) s lines mid := by
  have hinit : ∃ lines mid, Written debug n name before [] (Signalled.init m) lines mid := by
    have hfile : before ++ (([] : List Line).map Line.text).flatten ++ [] = before := by simp
    exact ⟨[], [], hfile.symm ▸ hlog, fun _ => rfl, nofun, rfl, nofun, nofun⟩
  obtain ⟨lines, mid, H⟩ := follow_keep
    (G := fun spawned s => ∃ lines mid, Written debug n name before spawned s lines mid)
    (K := fun l : LogPick => ∀ calls ∈ l.requests, ∀ c ∈ calls, Logs c)
    (fun _ _ _ _ ⟨_, _, H⟩ hok hs => H.step hok hs) hinit
    (fun l hl calls hc => hcalls calls (List.mem_flatMap.mpr ⟨l, hl, hc⟩)) hf
  rw [List.nil_append] at H
  exact ⟨lines, mid, H.file, H.rest, H.wholeLines⟩

/-- The log has been opened. -/
def openedLog : LogMem := ⟨some 0, [⟨ascii "ws.log", true, []⟩], 0, false⟩

/-- Two threads have taken their time when the second gets the lock first, and
    an alarm comes while it prints; the first is about to end its line. -/
def twoLines : List LogPick :=
  [.spawn [.add 1 (ascii "first"), .flush], .spawn [.add 2 (ascii "second")], goes 0, goes 0,
    goes 1, goes 1, goes 1, goes 1, .signal 1, goes 1, goes 1, goes 1, goes 1, goes 1, goes 1,
    goes 0, goes 0, goes 0]

theorem log_lines_two : ∃ past s lines mid,
    (logMachine false).follow (Signalled.init openedLog) twoLines = some (past, s) ∧
    s.shared.files.map LogFile.text = [ascii "210101 000000 000000000 WRN second\n" ++
      ascii "210101 000000 000000000 INF first"] ∧
    OnFile s.shared 0 (ascii "ws.log") ((lines.map Line.text).flatten ++ mid) ∧
    WholeLines false (twoLines.flatMap Pick.requests) s lines mid := by
  have hrun : ((logMachine false).follow (Signalled.init openedLog) twoLines).map
      (fun r => r.2.shared.files.map LogFile.text) =
      some [ascii "210101 000000 000000000 WRN second\n" ++
        ascii "210101 000000 000000000 INF first"] := by
    decide +kernel
  obtain ⟨⟨past, s⟩, hf, htext⟩ := Option.map_eq_some_iff.mp hrun
  have hcalls : ∀ calls ∈ twoLines.flatMap Pick.requests, ∀ c ∈ calls, Logs c := by
    intro calls hc
    have hall : calls = [.add 1 (ascii "first"), .flush] ∨ calls = [.add 2 (ascii "second")] := by
      simpa [twoLines, Pick.requests, goes] using hc
    rcases hall with rfl | rfl <;> simp [Logs]
  obtain ⟨lines, mid, hfile, -, hwhole⟩ :=
    log_lines (⟨rfl, rfl⟩ : OnFile openedLog 0 (ascii "ws.log") []) hcalls hf
  exact ⟨past, s, lines, mid, hf, htext, by simpa using hfile, hwhole⟩

end Lines

end Webstore
