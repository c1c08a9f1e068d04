/-
  Webstore.Redis

  The part of Redis the server talks to: the four commands it issues, with
  their documented meaning on a database whose keys may carry a time to
  live, and what can become of a command sent through the one shared
  context.  The clock counts milliseconds; `EX n` sets the deadline `1000 * n`
  ahead and a key is gone as soon as its deadline is reached.
-/
import Webstore.Expiry.Map
import Webstore.Libc
import Webstore.Sched.Machine

namespace Webstore

open Webstore.Libc Webstore.Sched

/-! ## Commands and replies -/

/-- The commands the server issues. -/
inductive Cmd where
  | get (key : Bytes)
  | del (key : Bytes)
  | set (key val : Bytes) (ex : Option Nat) (nx : Bool)
  | incr (key : Bytes)
deriving DecidableEq

/-- The key a command is about. -/
def Cmd.key : Cmd → Bytes
  | .get k => k
  | .del k => k
  | .set k _ _ _ => k
  | .incr k => k

/-- `redisReply`: the reply types the server looks at. -/
inductive Reply where
  | string (str : Bytes)
  | nil
  | status (str : Bytes)
  | integer (n : Int)
  | error (str : Bytes)
deriving DecidableEq

/-- The keys of the selected database. -/
abbrev Db := Expiry.Map Bytes Bytes

/-- When a key set at `now` with this option vanishes. -/
def deadlineAfter (now : Nat) (ex : Option Nat) : Option Nat := ex.map fun n => now + 1000 * n

/-- `INCR` on a key that holds `e`. -/
def incrEntry (db : Db) (k : Bytes) (e : Expiry.Entry Bytes) : Reply × Db :=
  match string2ll e.val with
  | none => (.error (ascii "ERR value is not an integer or out of range"), db)
  | some n =>
      if n + 1 < 2 ^ 63 then
        -- the deadline stays
        (.integer (n + 1), db.put k { e with val := ll2string (n + 1) })
      else (.error (ascii "ERR increment or decrement would overflow"), db)

/-- One command, executed atomically. -/
def execute (db : Db) : Cmd → Reply × Db
  | .get k =>
      match db.get k with
      | some e => (.string e.val, db)
      | none => (.nil, db)
  | .del k => (.integer (if (db.get k).isSome then 1 else 0), db.erase k)
  | .set k v ex nx =>
      -- a time to live of zero is refused before NX is looked at
      if ex = some 0 then (.error (ascii "ERR invalid expire time in 'set' command"), db)
      else if nx && (db.get k).isSome then (.nil, db)
      else (.status (ascii "OK"), db.put k ⟨v, deadlineAfter db.now ex⟩)
  | .incr k =>
      match db.get k with
      | some e => incrEntry db k e
      -- the key it creates has no deadline
      | none => (.integer 1, db.put k ⟨ascii "1", none⟩)

theorem execute_get (db : Db) (k : Bytes) : (execute db (.get k)).2 = db := by
  simp only [execute]
  split <;> rfl

theorem execute_get_some {db : Db} {k : Bytes} {e : Expiry.Entry Bytes} (h : db.get k = some e) :
    execute db (.get k) = (.string e.val, db) := by
  simp [execute, h]

theorem execute_get_none {db : Db} {k : Bytes} (h : db.get k = none) :
    execute db (.get k) = (.nil, db) := by
  simp [execute, h]

@[simp] theorem execute_del (db : Db) (k : Bytes) : (execute db (.del k)).2 = db.erase k := rfl

theorem execute_incr_none {db : Db} {k : Bytes} (h : db.get k = none) :
    execute db (.incr k) = (.integer 1, db.put k ⟨ascii "1", none⟩) := by
  simp [execute, h]

/-- What `SET` can do. -/
theorem execute_set_cases (db : Db) (k v : Bytes) (ex : Option Nat) (nx : Bool) :
    (ex = some 0 ∧ ∃ msg, execute db (.set k v ex nx) = (.error msg, db)) ∨
    (ex ≠ some 0 ∧ nx = true ∧ (db.get k).isSome = true ∧
      execute db (.set k v ex nx) = (.nil, db)) ∨
    (ex ≠ some 0 ∧ (nx = true → db.get k = none) ∧
      execute db (.set k v ex nx) =
        (.status (ascii "OK"), db.put k ⟨v, deadlineAfter db.now ex⟩)) := by
  by_cases h₀ : ex = some 0
  · exact .inl ⟨h₀, _, by rw [execute, if_pos h₀]⟩
  · by_cases h₁ : (nx && (db.get k).isSome) = true
    · obtain ⟨hnx, hk⟩ := Bool.and_eq_true_iff.mp h₁
      exact .inr (.inl ⟨h₀, hnx, hk, by rw [execute, if_neg h₀, if_pos h₁]⟩)
    · refine .inr (.inr ⟨h₀, ?_, by rw [execute, if_neg h₀, if_neg h₁]⟩)
      intro hnx
      simpa [hnx] using h₁

/-- A deadline that lies ahead. -/
theorem live_deadlineAfter {v : Bytes} {now : Nat} {ex : Option Nat} (h : ex ≠ some 0) :
    (⟨v, deadlineAfter now ex⟩ : Expiry.Entry Bytes).live now = true := by
  cases ex with
  | none => rfl
  | some n =>
      have : n ≠ 0 := fun hn => h (by rw [hn])
      simp only [Expiry.Entry.live, deadlineAfter, Option.map_some, decide_eq_true_eq]
      omega

/-- A command leaves the clock and every key but its own alone. -/
theorem execute_frame (db : Db) (c : Cmd) :
    (execute db c).2.now = db.now ∧
      ∀ k, k ≠ c.key → (execute db c).2.get k = db.get k := by
  cases c with
  | get k =>
      rw [execute_get]
      exact ⟨rfl, fun _ _ => rfl⟩
  | del k => exact ⟨rfl, fun k' hk => Expiry.Map.get_erase_ne _ hk⟩
  | set k v ex nx =>
      rcases execute_set_cases db k v ex nx with ⟨-, _, h⟩ | ⟨-, -, -, h⟩ | ⟨-, -, h⟩ <;> rw [h]
      · exact ⟨rfl, fun _ _ => rfl⟩
      · exact ⟨rfl, fun _ _ => rfl⟩
      · exact ⟨rfl, fun k' hk => Expiry.Map.get_put_ne _ _ hk⟩
  -- of the branches of INCR only those that write differ from `db`, at `k`
  | incr k =>
      simp only [execute, incrEntry]
      split
      · split
        · exact ⟨rfl, fun _ _ => rfl⟩
        · split
          · exact ⟨rfl, fun k' hk => Expiry.Map.get_put_ne _ _ hk⟩
          · exact ⟨rfl, fun _ _ => rfl⟩
      · exact ⟨rfl, fun k' hk => Expiry.Map.get_put_ne _ _ hk⟩

/-! ## The shared context -/

/-- What becomes of a command: it is executed and answered; it is refused
    with an error reply and has no effect; or no reply comes back, whether or
    not it took effect. -/
inductive Outcome where
  | answered
  | refused (msg : Bytes)
  | lost (effect : Bool)
deriving DecidableEq

/-- Redis, the context `rc->c` all threads share, and `g_shutdown`.  Once a
    reply was lost the context is broken. -/
structure Server where
  db : Db
  broken : Bool
  shutdown : Bool

/-- `redisCommand` on the shared context; `none` is a NULL reply. -/
def Server.command (s : Server) (c : Cmd) (out : Outcome) : Option Reply × Server :=
  if s.broken then (none, s)
  else
    match out with
    | .answered => (some (execute s.db c).1, { s with db := (execute s.db c).2 })
    | .refused msg => (some (.error msg), s)
    | .lost effect =>
        (none, { s with db := if effect then (execute s.db c).2 else s.db, broken := true })

/-- Everything that can become of a command. -/
theorem Server.command_cases (s : Server) (c : Cmd) (out : Outcome) :
    (s.broken = true ∧ s.command c out = (none, s)) ∨
    (s.broken = false ∧
      s.command c out = (some (execute s.db c).1, { s with db := (execute s.db c).2 })) ∨
    (s.broken = false ∧ ∃ msg, s.command c out = (some (.error msg), s)) ∨
    (s.broken = false ∧ ∃ db', (db' = (execute s.db c).2 ∨ db' = s.db) ∧
      s.command c out = (none, { s with db := db', broken := true })) := by
  cases hb : s.broken with
  | true => exact .inl ⟨rfl, by simp [Server.command, hb]⟩
  | false =>
      cases out with
      | answered => exact .inr (.inl ⟨rfl, by simp [Server.command, hb]⟩)
      | refused msg => exact .inr (.inr (.inl ⟨rfl, msg, by simp [Server.command, hb]⟩))
      | lost effect =>
          refine .inr (.inr (.inr ⟨rfl, if effect then (execute s.db c).2 else s.db, ?_, ?_⟩))
          · cases effect
            · exact .inr rfl
            · exact .inl rfl
          · simp [Server.command, hb]

/-- What holds of the database as it is and as the command would leave it holds
    of it after any outcome. -/
theorem Server.command_db {Q : Db → Prop} {s : Server} {c : Cmd} (out : Outcome) (h₀ : Q s.db)
    (h₁ : Q (execute s.db c).2) : Q (s.command c out).2.db := by
  rcases s.command_cases c out with ⟨-, hx⟩ | ⟨-, hx⟩ | ⟨-, msg, hx⟩ | ⟨-, db', hdb', hx⟩
  · rw [hx]
    exact h₀
  · rw [hx]
    exact h₁
  · rw [hx]
    exact h₀
  · rw [hx]
    rcases hdb' with rfl | rfl
    · exact h₁
    · exact h₀

/-- A reply that is no error is that of the command. -/
theorem Server.command_reply {s : Server} {c : Cmd} {out : Outcome} {reply : Reply}
    (h : (s.command c out).1 = some reply) :
    (∃ msg, reply = .error msg) ∨
      reply = (execute s.db c).1 ∧ (s.command c out).2.db = (execute s.db c).2 := by
  rcases s.command_cases c out with ⟨-, hx⟩ | ⟨-, hx⟩ | ⟨-, msg, hx⟩ | ⟨-, db', -, hx⟩
  · rw [hx] at h
    cases h
  · rw [hx] at h ⊢
    cases h
    exact .inr ⟨rfl, rfl⟩
  · rw [hx] at h
    cases h
    exact .inl ⟨msg, rfl⟩
  · rw [hx] at h
    cases h

/-- What a thread asks of the world outside its own stack: a command on the
    shared context, `handle_redis_error`, `shutting_down`, or to die. -/
inductive RaiOp where
  | redisCommand (c : Cmd)
  | handleRedisError
  | shuttingDown
  | fault (f : Fault)

/-- What each of them returns. -/
@[reducible] def RaiOp.Ret : RaiOp → Type
  | .redisCommand _ => Option Reply
  | .handleRedisError => Unit
  | .shuttingDown => Bool
  | .fault _ => Empty

/-- The signature of the threads of the server. -/
@[reducible] def Rai : Sig := ⟨RaiOp, RaiOp.Ret⟩

/-- What happens between the steps of the threads. -/
inductive Env where
  | tick (d : Nat)
  | signal
deriving DecidableEq

/-- Which outcomes and signals a run may contain. -/
structure Policy where
  outcome : Outcome → Bool
  signal : Bool

/-- Redis answers every command and nobody stops the server. -/
def Policy.faithful : Policy := ⟨fun out => out == .answered, false⟩

/-- Anything may happen. -/
def Policy.anything : Policy := ⟨fun _ => true, true⟩

/-- `handle_redis_error` ends in setting `g_shutdown`. -/
def Server.stop (s : Server) : Server := { s with shutdown := true }

/-- The effect of one operation. -/
def Server.exec (P : Policy) : (o : RaiOp) → Server → Outcome → Option (RaiOp.Ret o × Server)
  | .redisCommand c, s, out => if P.outcome out then some (s.command c out) else none
  | .handleRedisError, s, _ => some ((), s.stop)
  | .shuttingDown, s, _ => some (s.shutdown, s)
  | .fault _, _, _ => none

/-- The effect of one environment step. -/
def Server.env (P : Policy) : Env → Server → Option Server
  | .tick d, s => some { s with db := s.db.tick d }
  | .signal, s => if P.signal then some s.stop else none

/-- Between the steps of the threads the context stays as it is, and entries
    only vanish. -/
theorem Server.env_frame {P : Policy} {e : Env} {s s' : Server} (h : Server.env P e s = some s') :
    s'.broken = s.broken ∧ ∀ k e, s'.db.get k = some e → s.db.get k = some e := by
  cases e with
  | tick d =>
      cases h
      exact ⟨rfl, fun k e he => Expiry.Map.get_of_get_tick he⟩
  | signal =>
      simp only [Server.env, Option.ite_none_right_eq_some, Option.some.injEq] at h
      obtain ⟨-, rfl⟩ := h
      exact ⟨rfl, fun _ _ he => he⟩

/-- A command on a connected context, when Redis answers every command. -/
theorem Server.command_answered {s : Server} {c : Cmd} {out : Outcome} (hb : s.broken = false)
    (hout : Policy.faithful.outcome out = true) :
    s.command c out = (some (execute s.db c).1, { s with db := (execute s.db c).2 }) := by
  cases out with
  | answered => simp [Server.command, hb]
  | refused msg => cases hout
  | lost effect => cases hout

/-- The environment steps a faithful run has. -/
theorem Server.env_faithful {s s' : Server} {e : Env} (he : Server.env .faithful e s = some s') :
    ∃ d, e = .tick d ∧ s' = { s with db := s.db.tick d } := by
  cases e with
  | tick d =>
      cases he
      exact ⟨d, rfl, rfl⟩
  | signal => cases he

/-- Reading `g_shutdown` leaves no event. -/
def RaiOp.observed : RaiOp → Bool
  | .redisCommand _ => true
  | .handleRedisError => true
  | .shuttingDown => false
  | .fault _ => false

/-- The server: each request is served by `body`, concurrently or one after
    the other. -/
def raiMachine {Req Resp : Type} (P : Policy) (concurrent : Bool) (body : Req → Prog Rai Resp) :
    Machine Rai Server Req Resp Env Outcome where
  body := body
  exec := Server.exec P
  env := Server.env P
  observed := RaiOp.observed
  concurrent := concurrent

/-- Reading leaves everything as it is. -/
theorem Server.exec_quiet {P : Policy} {o : RaiOp} {s σ' : Server} {c : Outcome} {v : RaiOp.Ret o}
    (ho : o.observed = false) (hx : Server.exec P o s c = some (v, σ')) : σ' = s := by
  cases o with
  | shuttingDown =>
      cases hx
      rfl
  | fault f => cases hx
  | _ => cases ho

theorem raiMachine_linked {Req Resp : Type} {P : Policy} {concurrent : Bool}
    {body : Req → Prog Rai Resp} {s₀ s : Sys Rai Server Req Resp}
    {h : List (Event Rai Server Req Env)} (run : (raiMachine P concurrent body).Run s₀ h s) :
    Machine.Linked s₀.shared h s.shared :=
  run.linked fun ho hx => Server.exec_quiet ho hx

/-- A server that has just connected to a database. -/
def Server.start (db : Db) : Server := ⟨db, false, false⟩

/-! ## The operations as the source calls them -/

/-- `redisCommand`. -/
def redisCommand (c : Cmd) : Prog Rai (Option Reply) := Prog.perform (S := Rai) (.redisCommand c)

/-- `handle_redis_error`. -/
def handleRedisError : Prog Rai Unit := Prog.perform (S := Rai) .handleRedisError

/-- `shutting_down`. -/
def shuttingDown : Prog Rai Bool := Prog.perform (S := Rai) .shuttingDown

/-- `rai_lock`. -/
def raiLock : Prog Rai Unit := Prog.acquire

/-- `rai_unlock`. -/
def raiUnlock : Prog Rai Unit := Prog.release

/-- Go on with the value of a computation, or die of its fault. -/
def orDie {α : Type} : Except Fault α → Prog Rai α
  | .ok a => .done a
  | .error f => .op (S := Rai) (.fault f) fun e => nomatch e

section
variable {α : Type}

@[simp] theorem redisCommand_bind (c : Cmd) (f : Option Reply → Prog Rai α) :
    (redisCommand c >>= f) = .op (S := Rai) (.redisCommand c) f := rfl

@[simp] theorem handleRedisError_bind (f : Unit → Prog Rai α) :
    (handleRedisError >>= f) = .op (S := Rai) .handleRedisError f := rfl

@[simp] theorem shuttingDown_bind (f : Bool → Prog Rai α) :
    (shuttingDown >>= f) = .op (S := Rai) .shuttingDown f := rfl

@[simp] theorem raiLock_bind (f : Unit → Prog Rai α) : (raiLock >>= f) = .lock (f ()) := rfl

@[simp] theorem raiUnlock_bind (f : Unit → Prog Rai α) : (raiUnlock >>= f) = .unlock (f ()) := rfl

@[simp] theorem orDie_ok (a : α) : orDie (.ok a) = .done a := rfl

end

end Webstore
