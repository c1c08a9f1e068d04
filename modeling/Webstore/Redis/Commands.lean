/-
  Webstore.Redis.Commands

  What a thread program sends to Redis while the server is not shutting down:
  its first command, the answer it gives without sending any, the keys it can
  ever send a command for, and the faults it can die of.
-/
import Webstore.Redis

namespace Webstore

open Webstore.Libc Webstore.Sched

variable {α β : Type}

/-- The command a thread sends first. -/
def firstCommand : Prog Rai α → Option Cmd
  | .done _ => none
  | .lock p => firstCommand p
  | .unlock p => firstCommand p
  | .op (.redisCommand c) _ => some c
  | .op .handleRedisError k => firstCommand (k ())
  | .op .shuttingDown k => firstCommand (k false)
  | .op (.fault _) _ => none

/-- The answer of a thread that sends nothing. -/
def quietAnswer : Prog Rai α → Option α
  | .done a => some a
  | .lock p => quietAnswer p
  | .unlock p => quietAnswer p
  | .op (.redisCommand _) _ => none
  | .op .handleRedisError k => quietAnswer (k ())
  | .op .shuttingDown k => quietAnswer (k false)
  | .op (.fault _) _ => none

/-- Some command on `k` can be sent. -/
inductive Issues (k : Bytes) : Prog Rai α → Prop where
  | here {c : Cmd} {f : Option Reply → Prog Rai α} (h : c.key = k) :
      Issues k (.op (S := Rai) (.redisCommand c) f)
  | later {c : Cmd} {f : Option Reply → Prog Rai α} {v : Option Reply} (h : Issues k (f v)) :
      Issues k (.op (S := Rai) (.redisCommand c) f)
  | failed {f : Unit → Prog Rai α} (h : Issues k (f ())) :
      Issues k (.op (S := Rai) .handleRedisError f)
  | running {f : Bool → Prog Rai α} (h : Issues k (f false)) :
      Issues k (.op (S := Rai) .shuttingDown f)
  | lock {p : Prog Rai α} (h : Issues k p) : Issues k (.lock p)
  | unlock {p : Prog Rai α} (h : Issues k p) : Issues k (.unlock p)

/-- The thread can die. -/
inductive Faults (d : Fault) : Prog Rai α → Prop where
  | here {f : Empty → Prog Rai α} : Faults d (.op (S := Rai) (.fault d) f)
  | later {c : Cmd} {f : Option Reply → Prog Rai α} {v : Option Reply} (h : Faults d (f v)) :
      Faults d (.op (S := Rai) (.redisCommand c) f)
  | failed {f : Unit → Prog Rai α} (h : Faults d (f ())) :
      Faults d (.op (S := Rai) .handleRedisError f)
  | running {f : Bool → Prog Rai α} (h : Faults d (f false)) :
      Faults d (.op (S := Rai) .shuttingDown f)
  | lock {p : Prog Rai α} (h : Faults d p) : Faults d (.lock p)
  | unlock {p : Prog Rai α} (h : Faults d p) : Faults d (.unlock p)

/-- Every command is on `k`, and nothing dies. -/
def Confined (k : Bytes) : Prog Rai α → Prop
  | .done _ => True
  | .lock p => Confined k p
  | .unlock p => Confined k p
  | .op (.redisCommand c) f => c.key = k ∧ ∀ v, Confined k (f v)
  | .op .handleRedisError f => Confined k (f ())
  | .op .shuttingDown f => Confined k (f false)
  | .op (.fault _) _ => False

/-- A confined program sends commands on its key only. -/
theorem Confined.issues {k k' : Bytes} {p : Prog Rai α} (h : Confined k p) (hi : Issues k' p) :
    k' = k := by
  induction hi with
  | here hc => exact hc.symm.trans h.1
  | later _ ih => exact ih (h.2 _)
  | failed _ ih => exact ih h
  | running _ ih => exact ih h
  | lock _ ih => exact ih h
  | unlock _ ih => exact ih h

/-- It does not fault, either. -/
theorem Confined.not_faults {k : Bytes} {p : Prog Rai α} (h : Confined k p) (d : Fault) :
    ¬ Faults d p := by
  intro hd
  induction hd with
  | here => exact h
  | later _ ih => exact ih (h.2 _)
  | failed _ ih => exact ih h
  | running _ ih => exact ih h
  | lock _ ih => exact ih h
  | unlock _ ih => exact ih h

/-- Who answers without a command is confined to any key. -/
theorem confined_of_quietAnswer {p : Prog Rai α} {a : α} (h : quietAnswer p = some a)
    (k : Bytes) : Confined k p := by
  induction p with
  | done _ => trivial
  | lock p ih => exact ih h
  | unlock p ih => exact ih h
  | op o f ih =>
      cases o with
      | redisCommand c => cases h
      | handleRedisError => exact ih () h
      | shuttingDown => exact ih false h
      | fault d => cases h

theorem not_issues_of_quietAnswer {p : Prog Rai α} {a : α} (h : quietAnswer p = some a)
    (k : Bytes) : ¬ Issues k p := by
  intro hi
  -- confined to two different keys
  have h₁ := (confined_of_quietAnswer h (0 :: k)).issues hi
  exact absurd (congrArg List.length h₁) (by simp)

/-- The first command is one that is sent. -/
theorem issues_of_firstCommand {p : Prog Rai α} {c : Cmd} (h : firstCommand p = some c) :
    Issues c.key p := by
  induction p with
  | done _ => cases h
  | lock p ih => exact .lock (ih h)
  | unlock p ih => exact .unlock (ih h)
  | op o f ih =>
      cases o with
      | redisCommand c' =>
          cases h
          exact .here rfl
      | handleRedisError => exact .failed (ih () h)
      | shuttingDown => exact .running (ih false h)
      | fault d => cases h

/-! ## Going on with the answer -/

/-- Going on with the answer sends no command. -/
theorem firstCommand_map (p : Prog Rai α) (f : α → β) :
    firstCommand (p >>= fun a => .done (f a)) = firstCommand p := by
  induction p with
  | done _ => rfl
  | lock p ih => exact ih
  | unlock p ih => exact ih
  | op o k ih =>
      cases o with
      | redisCommand c => rfl
      | handleRedisError => exact ih ()
      | shuttingDown => exact ih false
      | fault d => rfl

/-- The answer of a quiet program can be handed on. -/
theorem quietAnswer_map (p : Prog Rai α) (f : α → β) :
    quietAnswer (p >>= fun a => .done (f a)) = (quietAnswer p).map f := by
  induction p with
  | done _ => rfl
  | lock p ih => exact ih
  | unlock p ih => exact ih
  | op o k ih =>
      cases o with
      | redisCommand c => rfl
      | handleRedisError => exact ih ()
      | shuttingDown => exact ih false
      | fault d => rfl

/-- Going on with the answer asks for no other key. -/
theorem confined_map {k : Bytes} {p : Prog Rai α} (h : Confined k p) (f : α → β) :
    Confined k (p >>= fun a => .done (f a)) := by
  induction p with
  | done _ => trivial
  | lock p ih => exact ih h
  | unlock p ih => exact ih h
  | op o g ih =>
      cases o with
      | redisCommand c => exact ⟨h.1, fun v => ih v (h.2 v)⟩
      | handleRedisError => exact ih () h
      | shuttingDown => exact ih false h
      | fault d => exact h

end Webstore
