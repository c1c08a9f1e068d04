/-
  Webstore.Log.Close

  Whether a closed FILE is used.  Every access to the log tests `g_lf` first, but
  `log_close` leaves `g_lf` as it is: from then on it points to a closed FILE, and
  the next flush by the alarm acts on it.  Until the first `fclose` it is NULL or
  points to an open one.
-/
import Webstore.Log

namespace Webstore

open Webstore.Libc Webstore.Sched Webstore.Sched.Signalled

namespace Close

/-- `g_lf` is NULL or points to an open FILE. -/
def LfOpen (m : LogMem) : Prop :=
  ∀ i, m.lf = some i → ∃ file, m.files[i]? = some file ∧ file.isOpen = true

/-- `g_lf` is in order, and no closed FILE has been used. -/
structure Sound (s : LogPool) : Prop where
  lf : LfOpen s.shared
  unused : s.shared.misused = false

/-- A thread closes the FILE behind `g_lf`. -/
def Closes (s : LogPool) : LogPick → Prop
  | .act i _ => ∃ t k, s.tasks[i]? = some t ∧ t.current = .op (S := LogSig) .fclose k
  | _ => False

/-! ## The operations -/

variable {m m' : LogMem}

/-- With `g_lf` in order an access finds an open FILE. -/
theorem LfOpen.onFile (h : LfOpen m) {f : LogFile → LogFile} (hx : m.onFile f = some m') :
    ∃ i file, m.lf = some i ∧ i < m.files.length ∧ file.isOpen = true ∧
      m' = { m with files := m.files.set i (f file) } := by
  simp only [LogMem.onFile, Option.bind_eq_some_iff, Option.map_eq_some_iff] at hx
  obtain ⟨i, hi, file, hfile, hm⟩ := hx
  obtain ⟨file', hfile', hopen⟩ := h i hi
  obtain rfl : file = file' := Option.some.inj (hfile.symm.trans hfile')
  rw [if_pos hopen] at hm
  exact ⟨i, file, hi, (List.getElem?_eq_some_iff.mp hfile).1, hopen, hm.symm⟩

/-- Printing and flushing keep it open. -/
theorem LfOpen.access (h : LfOpen m) {f : LogFile → LogFile} (hx : m.onFile f = some m')
    (hf : ∀ file, (f file).isOpen = file.isOpen) : LfOpen m' ∧ m'.misused = m.misused := by
  obtain ⟨i, file, hi, hlen, hopen, rfl⟩ := h.onFile hx
  refine ⟨fun j hj => ?_, rfl⟩
  obtain rfl : i = j := Option.some.inj (hi.symm.trans hj)
  exact ⟨f file, List.getElem?_set_self hlen, (hf file).trans hopen⟩

/-- Closing does not, and `g_lf` still points there. -/
theorem LfOpen.fclose (h : LfOpen m) {c : Chance} {v : Unit}
    (hx : LogMem.exec .fclose m c = some (v, m')) : ¬ LfOpen m' := by
  simp only [LogMem.exec, Option.map_eq_some_iff] at hx
  obtain ⟨m₁, hx, heq⟩ := hx
  obtain ⟨-, rfl⟩ := Prod.mk.inj heq
  obtain ⟨i, file, hi, hlen, -, rfl⟩ := h.onFile hx
  intro hopen
  obtain ⟨file', hfile', hopen'⟩ := hopen i hi
  rw [List.getElem?_set_self hlen, Option.some.injEq] at hfile'
  rw [← hfile'] at hopen'
  cases hopen'

/-- Whatever else is done keeps `g_lf` in order. -/
theorem LfOpen.exec (h : LfOpen m) {o : LogOp} (ho : o ≠ .fclose) {c : Chance} {v : LogOp.Ret o}
    (hx : LogMem.exec o m c = some (v, m')) : LfOpen m' ∧ m'.misused = m.misused := by
  cases o with
  | fclose => exact absurd rfl ho
  | fopen logfile =>
      simp only [LogMem.exec] at hx
      split at hx
      · cases hx
        refine ⟨fun i hi => ?_, rfl⟩
        obtain rfl : m.files.length = i := Option.some.inj hi
        exact ⟨_, List.getElem?_concat_length, rfl⟩
      · cases hx
        exact ⟨nofun, rfl⟩
  | fprintf text =>
      simp only [LogMem.exec, Option.map_eq_some_iff] at hx
      obtain ⟨m₁, hx, heq⟩ := hx
      obtain ⟨-, rfl⟩ := Prod.mk.inj heq
      exact h.access hx fun _ => rfl
  | fflush =>
      simp only [LogMem.exec, Option.map_eq_some_iff] at hx
      obtain ⟨m₁, hx, heq⟩ := hx
      obtain ⟨-, rfl⟩ := Prod.mk.inj heq
      exact h.access hx fun _ => rfl
  -- the rest do not touch the stream
  | _ =>
      cases hx
      exact ⟨h, rfl⟩

/-! ## The threads -/

/-- A step that closes nothing while it may still be used keeps the log sound. -/
theorem Sound.step {debug : Bool} {s s' : LogPool} {l : LogPick} (h : Sound s)
    (hok : ¬ Closes s l) (hs : (logMachine debug).step s l = some s') : Sound s' := by
  rcases step_cases hs with ⟨_, -, rfl⟩ | ⟨_, _, -, -, -, rfl⟩ | ⟨_, _, _, _, -, -, -, rfl⟩ |
    ⟨_, _, _, _, -, -, -, -, rfl⟩ | ⟨_, _, _, _, -, -, -, rfl⟩ |
    ⟨i, c, t, o, k, v, m, rfl, ht, hc, hx, rfl⟩
  · exact ⟨h.lf, h.unused⟩
  · exact ⟨h.lf, h.unused⟩
  · exact ⟨h.lf, h.unused⟩
  · exact ⟨h.lf, h.unused⟩
  · exact ⟨h.lf, h.unused⟩
  · have ho : o ≠ .fclose := by
      rintro rfl
      exact hok ⟨t, k, ht, hc⟩
    obtain ⟨hlf, hmis⟩ := h.lf.exec ho hx
    exact ⟨hlf, hmis.trans h.unused⟩

/-- One that does breaks it. -/
theorem Closes.unsound {debug : Bool} {s s' : LogPool} {l : LogPick} (h : Sound s)
    (hc : Closes s l) (hs : (logMachine debug).step s l = some s') : ¬ Sound s' := by
  cases l with
  | spawn calls => exact hc.elim
  | signal i => exact hc.elim
  | act i c =>
      obtain ⟨t, k, ht, hcur⟩ := hc
      simp only [Signalled.step, ht, Option.bind_some, hcur, stepTask, Option.map_eq_some_iff] at hs
      obtain ⟨⟨v, m⟩, hx, rfl⟩ := hs
      exact fun hsound => h.lf.fclose hx hsound.lf

/-- No closed FILE is used, and `g_lf` is in order, exactly as long as no thread
    has closed the log. -/
theorem sound_iff {debug : Bool} {timer : Int} {ls : List LogPick}
    {past : List (LogPool × LogPick)} {s : LogPool}
    (hf : (logMachine debug).follow (Signalled.init (LogMem.start timer)) ls = some (past, s)) :
    ((∀ p ∈ past, Sound p.1) ∧ Sound s) ↔ ∀ p ∈ past, ¬ Closes p.1 p.2 := by
  have hinit : Sound (Signalled.init (LogMem.start timer)) := ⟨nofun, rfl⟩
  exact follow_iff Sound Sound (fun s l => ¬ Closes s l)
    (fun s h => h) (fun s l s' h hok hs => h.step hok hs)
    (fun s l s' h hok hs => (not_not.mp hok).unsound h hs) hinit hf

/-! ## Two runs -/

/-- The log is opened and written to, and an alarm flushes it. -/
def openSchedule : List LogPick :=
  [.spawn [.openFile (ascii "ws.log"), .add 2 (ascii "hello")], goes 0, goes 0, goes 0, goes 0,
    goes 0, goes 0, goes 0, goes 0, goes 0, .signal 0, goes 0, goes 0, goes 0, goes 0, goes 0]

theorem sound_open : ∃ past s,
    (logMachine false).follow (Signalled.init (LogMem.start 3)) openSchedule = some (past, s) ∧
    s.shared.files = [⟨ascii "ws.log", true, ascii "210101 000000 000000000 WRN hello\n"⟩] ∧
    (((∀ p ∈ past, Sound p.1) ∧ Sound s) ↔ ∀ p ∈ past, ¬ Closes p.1 p.2) := by
  have hrun : ((logMachine false).follow (Signalled.init (LogMem.start 3)) openSchedule).map
      (fun r => r.2.shared.files) =
      some [⟨ascii "ws.log", true, ascii "210101 000000 000000000 WRN hello\n"⟩] := by
    decide +kernel
  obtain ⟨⟨past, s⟩, hf, hs⟩ := Option.map_eq_some_iff.mp hrun
  exact ⟨past, s, hf, hs, sound_iff hf⟩

/-- The alarm comes once more after `log_close`. -/
def lateAlarm : List LogPick :=
  [.spawn [.openFile (ascii "ws.log"), .close], goes 0, goes 0, goes 0, goes 0, goes 0, goes 0,
    .signal 0, goes 0, goes 0, goes 0, goes 0, goes 0]

theorem late_alarm_misuse : ∃ past s,
    (logMachine false).follow (Signalled.init (LogMem.start 3)) lateAlarm = some (past, s) ∧
      s.shared.misused = true ∧ ¬ Sound s := by
  have hrun : ((logMachine false).follow (Signalled.init (LogMem.start 3)) lateAlarm).map
      (fun r => r.2.shared.misused) = some true := by
    decide +kernel
  obtain ⟨⟨past, s⟩, hf, hs⟩ := Option.map_eq_some_iff.mp hrun
  refine ⟨past, s, hf, hs, fun hsound => ?_⟩
  have hs : s.shared.misused = true := hs
  rw [hsound.unused] at hs
  cases hs

end Close

end Webstore
