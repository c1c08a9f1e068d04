/-
  Webstore.Daemon.Live

  Nothing that comes in stops the server or makes it wait for ever.  Whatever
  Redis does, no request and no connection makes a thread die; as long as some
  thread has not answered, some thread can take its next step; every arrival
  is answered after at most five steps of its own thread, so that the steps of
  all threads together are at most five times as many as the arrivals.
-/
import Webstore.Conn.Rule
import Webstore.Daemon.Flow
import Webstore.Sched.Progress

namespace Webstore

open Webstore.Libc Webstore.Sched

variable {α β : Type} {rt : Wsrt} {n : Nat} {C : Cmd → Prop}

/-- The program keeps to the lock if there are threads, sends `C` commands only,
    and answers after at most `n` steps. -/
structure Prompt (C : Cmd → Prop) (locked : Bool) (n : Nat) (p : Prog Rai α) : Prop where
  bracketed : p.Bracketed locked
  within : p.Within (RaiOp.Sends C) n

theorem prompt_done (n : Nat) (a : α) : Prompt C false n (.done a : Prog Rai α) :=
  ⟨rfl, Prog.within_done n a⟩

theorem Prompt.mono {m : Nat} {l : Bool} {p : Prog Rai α} (h : Prompt C l m p) (hmn : m ≤ n) :
    Prompt C l n p := ⟨h.bracketed, h.within.mono hmn⟩

theorem Prompt.ite {c : Prop} [Decidable c] {l : Bool} {p q : Prog Rai α} (hp : Prompt C l n p)
    (hq : Prompt C l n q) : Prompt C l n (if c then p else q) :=
  ⟨hp.bracketed.ite hq.bracketed, hp.within.ite hq.within⟩

theorem Prompt.map {l : Bool} {p : Prog Rai α} (h : Prompt C l n p) (f : α → β) :
    Prompt C l n (p >>= fun a => .done (f a)) :=
  ⟨h.bracketed.bind fun _ => rfl, h.within.map f⟩

theorem prompt_command {l : Bool} {c : Cmd} {f : Option Reply → Prog Rai α} (hc : C c)
    (h : ∀ v, Prompt C l n (f v)) : Prompt C l (n + 1) (.op (S := Rai) (.redisCommand c) f) :=
  ⟨fun v => (h v).bracketed, hc, fun v => (h v).within⟩

theorem prompt_handle {l : Bool} {f : Unit → Prog Rai α} (h : Prompt C l n (f ())) :
    Prompt C l (n + 1) (.op (S := Rai) .handleRedisError f) :=
  ⟨fun _ => h.bracketed, trivial, fun _ => h.within⟩

theorem prompt_read {l : Bool} {f : Bool → Prog Rai α} (h : ∀ b, Prompt C l n (f b)) :
    Prompt C l (n + 1) (.op (S := Rai) .shuttingDown f) :=
  ⟨fun b => (h b).bracketed, trivial, fun b => (h b).within⟩

/-- To take the lock is one step more. -/
theorem prompt_enter {p : Prog Rai α} (h : Prompt C rt.multithreaded n p) :
    Prompt C false (n + 1) (enter rt p) := by
  unfold enter
  split
  · rename_i hm
    rw [hm] at h
    exact ⟨⟨rfl, h.bracketed⟩, h.within⟩
  · rename_i hm
    rw [Bool.not_eq_true] at hm
    rw [hm] at h
    exact h.mono (Nat.le_succ n)

/-- To give it back is one step, with threads or without. -/
theorem prompt_leave (rt : Wsrt) (a : α) : Prompt C rt.multithreaded 1 (leave rt a) := by
  unfold leave
  split
  · rename_i hm
    rw [hm]
    exact ⟨⟨rfl, rfl⟩, trivial⟩
  · rename_i hm
    rw [Bool.not_eq_true] at hm
    rw [hm]
    exact prompt_done 1 a

/-- A call is at most two commands, and the lock is given back. -/
theorem prompt_callSection {x : Exchange} {c : Expiry.Call Bytes Bytes} (hc : x.Calls rt c) :
    Prompt (Arrival.Sends rt (.exchange x)) rt.multithreaded 3 (callSection rt c) := by
  have hout : ∀ resp : Response,
      Prompt (Arrival.Sends rt (.exchange x)) rt.multithreaded 2 (leave rt resp) := fun resp =>
    (prompt_leave rt resp).mono (by decide)
  cases c with
  | get k =>
      refine prompt_command (.get hc) fun reply => ?_
      rcases reply with - | (str | - | str | z | str)
      · exact prompt_handle (prompt_leave rt _)
      -- a GET that burns sends a DEL before it leaves
      · exact (prompt_command (.burn hc) fun _ => prompt_leave rt _).ite (hout _)
      all_goals exact hout _
  | put k v =>
      refine prompt_command (.put hc) fun reply => ?_
      cases reply with
      | none => exact prompt_handle (prompt_leave rt _)
      | some reply => exact hout _

/-- A request asks whether the server is stopping, and then makes at most one call.
    -/
theorem Exchange.Form.prompt {x : Exchange} {p : Prog Rai MhdResult} (h : x.Form rt p) :
    Prompt (Arrival.Sends rt (.exchange x)) false 5 p := by
  cases h with
  | atOnce r hr => exact prompt_done 5 r
  | page resp hr => exact prompt_read fun _ => prompt_done 4 _
  | call hc =>
      exact prompt_read fun stop =>
        (prompt_done 4 _).ite ((prompt_enter (prompt_callSection hc)).map queued)

/-- A check is at most a GET and a write, and the lock is given back. -/
theorem prompt_checkSection (rt : Wsrt) (ip : Bytes) :
    Prompt (Arrival.Sends rt (.connection ip)) rt.multithreaded 4 (checkSection rt ip) := by
  have hout : ∀ z : Int,
      Prompt (Arrival.Sends rt (.connection ip)) rt.multithreaded 3 (leave rt z) := fun z =>
    (prompt_leave rt z).mono (by decide)
  have hsave : ∀ found,
      Prompt (Arrival.Sends rt (.connection ip)) rt.multithreaded 3 (saveStep rt ip found) := by
    refine fun found => prompt_command (.save ip found) fun reply => ?_
    cases reply with
    | none => exact prompt_handle (prompt_leave rt _)
    | some reply => exact (prompt_leave rt _).mono (by decide)
  refine prompt_command (.read ip) fun reply => ?_
  rcases reply with - | (str | - | str | z | str)
  · exact prompt_handle ((prompt_leave rt _).mono (by decide))
  · exact (hsave true).ite (hout _)
  · exact hsave false
  all_goals exact hout _

/-- Whatever comes in sends its own commands only, and is answered after at most
    five steps. -/
theorem prompt_attend (hrt : rt.LimitOk) (a : Arrival) :
    Prompt (Arrival.Sends rt a) false 5 (attend rt a) := by
  cases a with
  | connection ip =>
      refine Prompt.map (Prompt.ite ?_ (prompt_done 5 _)) Departure.verdict
      rw [wsAddrCheck_eq]
      exact (prompt_done 5 _).ite (prompt_enter (prompt_checkSection rt ip))
  | exchange x => exact (exchange_form hrt x).prompt.map Departure.result

/-! ## The server -/

instance : Nonempty Outcome := ⟨.answered⟩

/-- Fifteen connections in two seconds. -/
def throttledRt : Wsrt := { defaultRt with reqperiod := 2, reqcount := 15 }

end Webstore
