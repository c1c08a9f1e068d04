/-
  Webstore.Log

  The log: `log_open`, `log_add`, `log_flush` and `log_close` on the one file
  `g_lf`, and the handler of SIGALRM, which flushes it on every fourth alarm.
  Threads make these calls in any order.  Every access to `g_lf`, to the FILE
  behind it and to `g_log_sync_timer` is a step of its own, and so is taking
  and giving back `g_log_lock`.
-/
import Webstore.Libc
import Webstore.Sched.Signal

namespace Webstore

open Webstore.Libc Webstore.Sched

/-! ## Files -/

/-- A FILE and what was printed to it. -/
structure LogFile where
  name : Bytes
  isOpen : Bool
  text : Bytes
deriving DecidableEq

/-- `g_lf`, the FILEs it has pointed to, and `g_log_sync_timer`.  `misused` says
    that a closed FILE was printed to, flushed or closed again; what else the C
    library may do then is left open. -/
structure LogMem where
  lf : Option Nat
  files : List LogFile
  timer : Int
  misused : Bool
deriving DecidableEq

/-- No file has been opened yet. -/
def LogMem.start (timer : Int) : LogMem := ⟨none, [], timer, false⟩

/-- What the outside decides: whether a file can be opened, and the time. -/
structure Chance where
  opens : Bool
  now : Bytes
deriving DecidableEq

inductive LogOp where
  | isSet
  | timestamp
  | fopen (logfile : Bytes)
  | fprintf (text : Bytes)
  | fflush
  | fclose
  | timerIncr
  | timerRead
  | timerReset

@[reducible] def LogOp.Ret : LogOp → Type
  | .isSet => Bool
  | .timestamp => Bytes
  | .timerRead => Int
  | _ => Unit

/-- The signature of the threads that log. -/
@[reducible] def LogSig : Sig := ⟨LogOp, LogOp.Ret⟩

/-- `f` done to the FILE behind `g_lf`.  A NULL pointer kills the process. -/
def LogMem.onFile (m : LogMem) (f : LogFile → LogFile) : Option LogMem :=
  m.lf.bind fun i => m.files[i]?.map fun file =>
    if file.isOpen then { m with files := m.files.set i (f file) }
    else { m with misused := true }

/-- The effect of one operation. -/
def LogMem.exec : (o : LogOp) → LogMem → Chance → Option (LogOp.Ret o × LogMem)
  | .isSet, m, _ => some (m.lf.isSome, m)
  | .timestamp, m, c => some (c.now, m)
  | .fopen logfile, m, c =>
      if c.opens then
        some ((), { m with lf := some m.files.length, files := m.files ++ [⟨logfile, true, []⟩] })
      else some ((), { m with lf := none })
  | .fprintf text, m, _ =>
      (m.onFile fun file => { file with text := file.text ++ text }).map fun m' => ((), m')
  | .fflush, m, _ => (m.onFile id).map fun m' => ((), m')
  | .fclose, m, _ => (m.onFile fun file => { file with isOpen := false }).map fun m' => ((), m')
  | .timerIncr, m, _ => some ((), { m with timer := m.timer + 1 })
  | .timerRead, m, _ => some (m.timer, m)
  | .timerReset, m, _ => some ((), { m with timer := 0 })

/-! ## The calls -/

def wslogInfo : Int := 1
def wslogWarn : Int := 2
def wslogErr : Int := 3
def wslogCrit : Int := 4
def wslogDebug : Int := 5

/-- The text of a level; `debug` is whether DEBUG was defined. -/
def levelStr (debug : Bool) (level : Int) : Option Bytes :=
  if level = wslogInfo then some (ascii "INF")
  else if level = wslogWarn then some (ascii "WRN")
  else if level = wslogErr then some (ascii "ERR")
  else if level = wslogCrit then some (ascii "CRT")
  else if debug ∧ level = wslogDebug then some (ascii "DBG")
  else none

section
variable {α : Type}

/-- An operation on the log. -/
def logOp (o : LogOp) : Prog LogSig (LogOp.Ret o) := Prog.perform (S := LogSig) o

@[simp] theorem logOp_bind (o : LogOp) (f : LogOp.Ret o → Prog LogSig α) :
    (logOp o >>= f) = .op (S := LogSig) o f := rfl

end

/-- `log_add`, with the message as it is printed. -/
def logAdd (debug : Bool) (level : Int) (msg : Bytes) : Prog LogSig Unit := do
  if (← logOp .isSet) = false then return ()
  else
    match levelStr debug level with
    | none => return ()
    | some lPtr => do
        let timestamp ← logOp .timestamp
        Prog.acquire
        logOp (.fprintf (timestamp ++ ascii " " ++ lPtr ++ ascii " "))
        logOp (.fprintf msg)
        logOp (.fprintf (ascii "\n"))
        Prog.release

/-- `log_open`. -/
def logOpen (logfile : Bytes) : Prog LogSig Int := do
  logOp (.fopen logfile)
  if (← logOp .isSet) = false then return -1
  else return 0

/-- `log_close`. -/
def logClose : Prog LogSig Unit := do
  Prog.acquire
  if (← logOp .isSet) then do
    logOp .fclose
    Prog.release
  else Prog.release

/-- `log_flush`. -/
def logFlush : Prog LogSig Unit := do
  Prog.acquire
  if (← logOp .isSet) then do
    logOp .fflush
    Prog.release
  else Prog.release

/-- `alarm_handler`.  The alarm it sets again may come at any time. -/
def alarmHandler : Prog LogSig Unit := do
  logOp .timerIncr
  if (← logOp .timerRead) ≥ 4 then do
    logFlush
    logOp .timerReset
  else return ()

/-! ## The threads -/

inductive LogCall where
  | add (level : Int) (msg : Bytes)
  | openFile (logfile : Bytes)
  | flush
  | close
deriving DecidableEq

def LogCall.run (debug : Bool) : LogCall → Prog LogSig Unit
  | .add level msg => logAdd debug level msg
  | .openFile logfile => do
      let _ ← logOpen logfile
      return ()
  | .flush => logFlush
  | .close => logClose

/-- One call after the other. -/
def runCalls (debug : Bool) : List LogCall → Prog LogSig Unit
  | [] => .done ()
  | call :: calls => call.run debug >>= fun _ => runCalls debug calls

/-- Threads that log, interrupted by SIGALRM. -/
@[reducible] def logMachine (debug : Bool) : Signalled LogSig LogMem (List LogCall) Chance where
  body := runCalls debug
  handler := alarmHandler
  exec := LogMem.exec

abbrev LogPool := Pool LogSig LogMem

abbrev LogPick := Pick (List LogCall) Chance

/-- Thread `i` goes on, at one and the same time of day. -/
def goes (i : Nat) : LogPick := .act i ⟨true, ascii "210101 000000 000000000"⟩

/-! ## Calls give the lock back -/

/-- `log_add` gives back the mutex it takes. -/
theorem bracketed_logAdd (debug : Bool) (level : Int) (msg : Bytes) :
    (logAdd debug level msg).Bracketed false := by
  intro isSet
  refine .ite rfl ?_
  cases levelStr debug level with
  | none => rfl
  | some lPtr => exact fun _ => ⟨rfl, fun _ _ _ => ⟨rfl, rfl⟩⟩

theorem bracketed_logFlush : logFlush.Bracketed false :=
  ⟨rfl, fun _ => .ite (fun _ => ⟨rfl, rfl⟩) ⟨rfl, rfl⟩⟩

theorem bracketed_logClose : logClose.Bracketed false :=
  ⟨rfl, fun _ => .ite (fun _ => ⟨rfl, rfl⟩) ⟨rfl, rfl⟩⟩

theorem bracketed_logOpen (logfile : Bytes) : (logOpen logfile).Bracketed false :=
  fun _ _ => .ite rfl rfl

/-- So do all calls of the program. -/
theorem LogCall.bracketed_run (debug : Bool) (call : LogCall) :
    (call.run debug).Bracketed false := by
  cases call with
  | add level msg => exact bracketed_logAdd debug level msg
  | openFile logfile => exact (bracketed_logOpen logfile).bind fun _ => rfl
  | flush => exact bracketed_logFlush
  | close => exact bracketed_logClose

theorem bracketed_runCalls (debug : Bool) (calls : List LogCall) :
    (runCalls debug calls).Bracketed false := by
  induction calls with
  | nil => rfl
  | cons call calls ih => exact (call.bracketed_run debug).bind fun _ => ih

end Webstore
