/-
  Webstore.Service.Apart

  Messages and counters do not meet.  The keys of messages are hexadecimal
  digits and those of counters begin with `IPS:`, so what one client does
  through a token or through its address nobody else can see: a run without
  some of the clients gives the others the same answers.
-/
import Webstore.Sched.Apart
import Webstore.Sched.Local
import Webstore.Service.Guard

namespace Webstore

open Webstore.Libc Webstore.Sched

/-! ## Databases that agree on some keys -/

/-- What a command does to its key depends on that key and the time only. -/
theorem execute_congr {a b : Db} {c : Cmd} (hnow : a.now = b.now)
    (hget : a.get c.key = b.get c.key) :
    (execute a c).1 = (execute b c).1 ∧
      (execute a c).2.get c.key = (execute b c).2.get c.key := by
  -- an entry is written with the same clock
  have hput (k : Bytes) (e : Expiry.Entry Bytes) : (a.put k e).get k = (b.put k e).get k := by
    simp [Expiry.Map.put, hnow]
  cases c with
  | get k =>
      replace hget : a.get k = b.get k := hget
      simp only [execute, hget]
      split
      · exact ⟨rfl, hget⟩
      · exact ⟨rfl, hget⟩
  | del k =>
      replace hget : a.get k = b.get k := hget
      simp only [execute, hget, Cmd.key, Expiry.Map.get_erase_self, and_self]
  | set k v ex nx =>
      replace hget : a.get k = b.get k := hget
      simp only [execute, hget, hnow]
      split
      · exact ⟨rfl, hget⟩
      · split
        · exact ⟨rfl, hget⟩
        · exact ⟨rfl, hput k _⟩
  | incr k =>
      replace hget : a.get k = b.get k := hget
      simp only [execute, incrEntry, hget]
      split
      · split
        · exact ⟨rfl, hget⟩
        · split
          · exact ⟨rfl, hput k _⟩
          · exact ⟨rfl, hget⟩
      · exact ⟨rfl, hput k _⟩

/-- Two servers, connected and not stopping, that nobody can tell apart by the
    keys of `K`. -/
structure Alike (K : Bytes → Prop) (a b : Server) : Prop where
  connected : a.broken = false ∧ b.broken = false
  running : a.shutdown = false ∧ b.shutdown = false
  now : a.db.now = b.db.now
  get : ∀ k, K k → a.db.get k = b.db.get k

theorem Alike.start (K : Bytes → Prop) (db : Db) : Alike K (Server.start db) (Server.start db) :=
  ⟨⟨rfl, rfl⟩, ⟨rfl, rfl⟩, rfl, fun _ _ => rfl⟩

variable {K : Bytes → Prop} {a a' b : Server}

theorem Alike.env (h : Alike K a b) {e : Env} (he : Server.env .faithful e a = some a') :
    ∃ b', Server.env .faithful e b = some b' ∧ Alike K a' b' := by
  obtain ⟨d, rfl, rfl⟩ := Server.env_faithful he
  refine ⟨{ b with db := b.db.tick d }, rfl, h.connected, h.running, ?_, fun k hk => ?_⟩
  · show a.db.now + d = b.db.now + d
    rw [h.now]
  · show (a.db.tick d).get k = (b.db.tick d).get k
    rw [Expiry.Map.get_tick, Expiry.Map.get_tick, h.get k hk, h.now]

/-- A command on a key of `K` gets the same reply from both. -/
theorem Alike.command (h : Alike K a b) {c : Cmd} (hc : K c.key) :
    (execute a.db c).1 = (execute b.db c).1 ∧
      Alike K { a with db := (execute a.db c).2 } { b with db := (execute b.db c).2 } := by
  obtain ⟨hreply, hget⟩ := execute_congr h.now (h.get _ hc)
  obtain ⟨hnow, hframe⟩ := execute_frame a.db c
  obtain ⟨hnow', hframe'⟩ := execute_frame b.db c
  refine ⟨hreply, h.connected, h.running, ?_, fun k hk => ?_⟩
  · exact hnow.trans (h.now.trans hnow'.symm)
  · by_cases heq : k = c.key
    · rw [heq]
      exact hget
    · exact (hframe k heq).trans ((h.get k hk).trans (hframe' k heq).symm)

/-- A command on another key cannot be noticed. -/
theorem Alike.unnoticed (h : Alike K a b) {c : Cmd} (hc : ¬ K c.key) :
    Alike K { a with db := (execute a.db c).2 } b := by
  obtain ⟨hnow, hframe⟩ := execute_frame a.db c
  refine ⟨h.connected, h.running, hnow.trans h.now, fun k hk => ?_⟩
  have hne : k ≠ c.key := fun heq => hc (heq ▸ hk)
  exact (hframe k hne).trans (h.get k hk)

/-! ## Clients that are left out -/

/-- A guarded program gives back the lock it takes. -/
theorem guarded_bracketed {α : Type} {l m : Bool} {p : Prog Rai α} (h : Guarded K false l m p) :
    p.Bracketed l := by
  induction p generalizing l m with
  | done a =>
      cases m with
      | false => exact h
      | true => exact h.elim
  | lock p ih =>
      cases m with
      | false => exact ⟨h.1, ih h.2⟩
      | true => exact h.elim
  | unlock p ih =>
      cases m with
      | false => exact ⟨h.1, ih h.2⟩
      | true => exact h.elim
  | op o k ih =>
      cases m with
      | true =>
          -- a reply is missing: `handle_redis_error` is all it can do
          obtain ⟨k', hk, hrest⟩ := h.missed
          cases hk
          exact fun v => ih v hrest
      | false =>
          cases o with
          | redisCommand c =>
              intro v
              cases v with
              | none => exact ih none h.2.1
              | some reply => exact ih (some reply) (h.2.2 reply)
          | handleRedisError => exact h.elim
          | shuttingDown => exact fun v => ih v (h v)
          | fault d => exact nofun

/-- The clients that stay send commands on keys of `K`, and the others on other
    keys. -/
theorem service_apart (rt : Wsrt) {keep : Incoming → Bool}
    (hkeys : ∀ r, Guarded (fun k => K k ↔ keep r = true) false false false (serve rt r)) :
    (serviceMachine .faithful rt).Apart keep (Alike K)
      (fun b p => ∃ l, Guarded (fun k => K k ↔ b = true) false l false p) where
  starts r := ⟨guarded_bracketed (hkeys r), false, hkeys r⟩
  lock := fun ⟨_, h⟩ => ⟨true, h.2⟩
  unlock := fun ⟨_, h⟩ => ⟨false, h.2⟩
  env h he := h.env he
  kept := by
    rintro o k a a' b c v ⟨l, h⟩ hR hx
    cases o with
    | redisCommand cmd =>
        -- a command on a key both servers show alike
        have hc : K cmd.key := h.1.mpr rfl
        obtain ⟨hreply, hR'⟩ := hR.command hc
        simp only [raiMachine, Server.exec, Option.ite_none_right_eq_some, Option.some.injEq] at hx
        obtain ⟨hout, hx⟩ := hx
        rw [Server.command_answered hR.connected.1 hout] at hx
        cases hx
        refine ⟨⟨l, h.2.2 _⟩, _, ?_, hR'⟩
        simp only [raiMachine, Server.exec, if_pos hout,
          Server.command_answered hR.connected.2 hout, hreply]
    | handleRedisError => exact h.elim
    | shuttingDown =>
        cases hx
        refine ⟨⟨l, h _⟩, b, ?_, hR⟩
        simp [raiMachine, Server.exec, hR.running.1, hR.running.2]
    | fault d => cases hx
  removed := by
    rintro o k a a' b c v ⟨l, h⟩ hR hx
    cases o with
    | redisCommand cmd =>
        -- a command on a key that nobody who stays looks at
        have hc : ¬ K cmd.key := fun hk => Bool.false_ne_true (h.1.mp hk)
        simp only [raiMachine, Server.exec, Option.ite_none_right_eq_some, Option.some.injEq] at hx
        obtain ⟨hout, hx⟩ := hx
        rw [Server.command_answered hR.connected.1 hout] at hx
        cases hx
        exact ⟨⟨l, h.2.2 _⟩, hR.unnoticed hc⟩
    | handleRedisError => exact h.elim
    | shuttingDown =>
        cases hx
        exact ⟨⟨l, h _⟩, hR⟩
    | fault d => cases hx

/-! ## The keys of a client -/

/-- What a client's commands are on: messages for a request, the counter of its
    address for a connection. -/
def OwnKey : Incoming → Bytes → Prop
  | .request _, k => HexKey k
  | .connection ip, k => k = ipKey ip

theorem guarded_ownKey (rt : Wsrt) (r : Incoming) :
    Guarded (OwnKey r) false false false (serve rt r) := by
  cases r with
  | connection ip => exact guarded_connection rt ip
  | request ri => exact guarded_request rt ri

/-- `I` is no hexadecimal digit. -/
theorem not_hexKey_ipKey (ip : Bytes) : ¬ HexKey (ipKey ip) := by
  intro h
  have hI : isxdigit 73 = true := h 73 (by simp [ipKey, ascii])
  exact absurd hI (by decide)

theorem ipKey_inj {ip ip' : Bytes} (h : ipKey ip = ipKey ip') : cString ip = cString ip' :=
  List.append_cancel_left h

def isRequest : Incoming → Bool
  | .request _ => true
  | .connection _ => false

def isConnection : Incoming → Bool
  | .request _ => false
  | .connection _ => true

/-- No connection from another address than `ip`. -/
def notFromOther (ip : Bytes) : Incoming → Bool
  | .request _ => true
  | .connection ip' => cString ip' == cString ip

/-- Which clients stay: the requests, if they do, and the connections from some
    addresses. -/
def staying (requests : Bool) (addr : Bytes → Bool) : Incoming → Bool
  | .request _ => requests
  | .connection ip => addr (cString ip)

/-- The keys of the clients that stay. -/
def StayingKey (requests : Bool) (addr : Bytes → Bool) (k : Bytes) : Prop :=
  (requests = true ∧ HexKey k) ∨ ∃ ip, addr (cString ip) = true ∧ k = ipKey ip

theorem stayingKey_iff {requests : Bool} {addr : Bytes → Bool} {r : Incoming} {k : Bytes}
    (h : OwnKey r k) : StayingKey requests addr k ↔ staying requests addr r = true := by
  cases r with
  | request ri =>
      have hk : HexKey k := h
      -- a key of digits is no counter, whoever's it is
      constructor
      · rintro (⟨hr, -⟩ | ⟨ip, -, rfl⟩)
        · exact hr
        · exact absurd hk (not_hexKey_ipKey ip)
      · exact fun hr => .inl ⟨hr, hk⟩
  | connection ip =>
      obtain rfl : k = ipKey ip := h
      constructor
      · rintro (⟨-, hk⟩ | ⟨ip', hip', heq⟩)
        · exact absurd hk (not_hexKey_ipKey ip)
        · show addr (cString ip) = true
          rwa [ipKey_inj heq]
      · exact fun hip => .inr ⟨ip, hip, rfl⟩

section
variable {rt : Wsrt} {db : Db} {ls : List (Label Incoming Env Outcome)} {h : List ServiceEvent}
  {s : Sys Rai Server Incoming Outgoing}

/-- Without the clients that leave, the same schedule runs, and those that stay
    do the same as before. -/
def Undisturbed (rt : Wsrt) (db : Db) (keep : Incoming → Bool)
    (ls : List (Label Incoming Env Outcome)) (s : Sys Rai Server Incoming Outgoing) : Prop :=
  ∃ h' s', (serviceMachine .faithful rt).follow (Machine.init (Server.start db))
      (without keep [] ls) = some (h', s') ∧
    s'.threads = s.threads.filter (keep ·.req)

theorem undisturbed (requests : Bool) (addr : Bytes → Bool)
    (hf : (serviceMachine .faithful rt).follow (Machine.init (Server.start db)) ls = some (h, s)) :
    Undisturbed rt db (staying requests addr) ls s := by
  refine (service_apart (K := StayingKey requests addr) rt fun r => ?_).follow (.start _ db) hf
  exact (guarded_ownKey rt r).mono fun k hk => stayingKey_iff hk

/-! ## What the commands of a run are on -/

/-- A command is on a key of its client. -/
def OnOwnKey : ServiceEvent → Prop
  | .op _ r (.redisCommand c) _ _ _ => OwnKey r c.key
  | _ => True

/-- A thread stays guarded, and all its events are on its own keys. -/
theorem ownKey_local (P : Policy) (rt : Wsrt) :
    (serviceMachine P rt).Local (fun _ => True) (fun _ r p es =>
      (∃ l m, Guarded (OwnKey r) false l m p) ∧ ∀ ev ∈ es, OnOwnKey ev) where
  env _ _ := trivial
  starts _ r := ⟨⟨false, false, guarded_ownKey rt r⟩, by simp⟩
  lock := by
    rintro i r k es ⟨⟨l, m, h⟩, hes⟩
    cases m with
    | false => exact ⟨⟨true, false, h.2⟩, hes⟩
    | true => exact h.elim
  unlock := by
    rintro i r k es ⟨⟨l, m, h⟩, hes⟩
    cases m with
    | false => exact ⟨⟨false, false, h.2⟩, hes⟩
    | true => exact h.elim
  op := by
    rintro i r o k es a c b v ⟨⟨l, m, h⟩, hes⟩ - -
    -- the history grows by this one event at most
    have happend : OnOwnKey (.op i r o v a c) →
        ∀ ev ∈ es ++ if (serviceMachine P rt).observed o then [Event.op i r o v a c] else [],
          OnOwnKey ev := by
      intro hev ev hm
      rcases List.mem_append.mp hm with hm | hm
      · exact hes ev hm
      · split at hm
        · rwa [List.mem_singleton.mp hm]
        · cases hm
    refine ⟨trivial, ?_⟩
    cases m with
    | true =>
        obtain ⟨k', hk, hrest⟩ := h.missed
        cases hk
        exact ⟨⟨l, false, hrest⟩, happend trivial⟩
    | false =>
        cases o with
        | redisCommand cmd =>
            refine ⟨?_, happend h.1⟩
            cases v with
            | none => exact ⟨l, _, h.2.1⟩
            | some reply => exact ⟨l, false, h.2.2 reply⟩
        | handleRedisError => exact h.elim
        | shuttingDown => exact ⟨⟨l, false, h v⟩, happend trivial⟩
        | fault d => exact nomatch v

theorem onOwnKey_of_run {P : Policy}
    (run : (serviceMachine P rt).Run (Machine.init (Server.start db)) h s) :
    ∀ ev ∈ h, OnOwnKey ev := by
  intro ev hm
  have K := (ownKey_local P rt).kept (.init trivial) run
  cases htid : ev.tid with
  | none =>
      cases ev with
      | op i r o v pre post => cases htid
      | env e pre post => trivial
  | some i =>
      have hi := K.tids ev hm i htid
      exact (K.threads i _ (List.getElem?_eq_getElem hi)).2 ev (mem_own.mpr ⟨hm, htid⟩)

/-- Messages, counters and the clients of different addresses, kept apart. -/
structure ClientsApart (rt : Wsrt) (db : Db) (ls : List (Label Incoming Env Outcome))
    (h : List ServiceEvent) (s : Sys Rai Server Incoming Outgoing) : Prop where
  /-- Without the checks the store answers the same. -/
  requests : Undisturbed rt db isRequest ls s
  /-- Without the store's requests the checks decide the same. -/
  connections : Undisturbed rt db isConnection ls s
  /-- Without the checks of all other addresses those of `ip` decide the same. -/
  addresses : ∀ ip, Undisturbed rt db (notFromOther ip) ls s
  /-- A token reaches no counter. -/
  tokens : ∀ {i ri c v pre post},
    Event.op (S := Rai) i (.request ri) (.redisCommand c) v pre post ∈ h →
      ∀ ip, c.key ≠ ipKey ip
  /-- An address reaches no message and no counter but its own. -/
  counters : ∀ {i ip c v pre post},
    Event.op (S := Rai) i (.connection ip) (.redisCommand c) v pre post ∈ h →
      ¬ HexKey c.key ∧ ∀ ip', cString ip' ≠ cString ip → c.key ≠ ipKey ip'

/-- Clients do not disturb each other: requests go as if there were no checks,
    checks as if there were no requests, and the checks of an address as if there
    were no other addresses. -/
theorem clients_apart
    (hf : (serviceMachine .faithful rt).follow (Machine.init (Server.start db)) ls = some (h, s)) :
    ClientsApart rt db ls h s where
  requests := by
    -- to leave out the checks is to keep all requests and no address
    have hkeep : isRequest = staying true fun _ => false := by
      funext r
      cases r <;> rfl
    rw [hkeep]
    exact undisturbed _ _ hf
  connections := by
    have hkeep : isConnection = staying false fun _ => true := by
      funext r
      cases r <;> rfl
    rw [hkeep]
    exact undisturbed _ _ hf
  addresses ip := by
    have hkeep : notFromOther ip = staying true fun ip' => ip' == cString ip := by
      funext r
      cases r <;> rfl
    rw [hkeep]
    exact undisturbed _ _ hf
  tokens := by
    intro i ri c v pre post hm ip heq
    have hk : HexKey c.key := onOwnKey_of_run (Machine.run_of_follow hf) _ hm
    rw [heq] at hk
    exact not_hexKey_ipKey ip hk
  counters := by
    intro i ip c v pre post hm
    have hk : c.key = ipKey ip := onOwnKey_of_run (Machine.run_of_follow hf) _ hm
    rw [hk]
    exact ⟨not_hexKey_ipKey ip, fun ip' hne heq => hne (ipKey_inj heq).symm⟩

end

/-- What the client gets to see. -/
def seen : Outgoing → Int ⊕ Option Bytes
  | .verdict z => .inl z
  | .page page _ => .inr page

/-- One connection a minute, and a store that burns. -/
def mixedRt : Wsrt := ⟨true, 60, 1, 0, 0, false, true⟩

/-- Two addresses, one of them twice, and a message that comes and goes. -/
def mixedSchedule : List (Label Incoming Env Outcome) :=
  [.spawn (.connection (ascii "192.0.2.1")),
    .spawn (processed .post (ascii "/store/128/" ++ lowerToken) (ascii "HelloWorld")),
    .act 0 .answered, .act 1 .answered, .act 0 .answered, .env (.tick 500), .act 0 .answered,
    .act 0 .answered, .act 1 .answered, .spawn (.connection (ascii "2001:db8::1")),
    .act 1 .answered, .act 1 .answered, .act 2 .answered, .act 2 .answered, .act 2 .answered,
    .spawn (.connection (ascii "192.0.2.1")), .act 2 .answered, .act 3 .answered,
    .act 3 .answered, .act 3 .answered,
    .spawn (processed .get (ascii "/store/128/" ++ lowerToken) []), .act 4 .answered,
    .act 4 .answered, .act 4 .answered, .act 4 .answered, .act 4 .answered]

theorem clients_apart_mixed : ∃ h s,
    (serviceMachine .faithful mixedRt).follow (Machine.init (Server.start (.empty 0)))
      mixedSchedule = some (h, s) ∧
    s.threads.map (fun t => t.code.answer?.map seen) =
      [some (.inl 1), some (.inr (some (ascii "ok"))), some (.inl 1), some (.inl 0),
        some (.inr (some (ascii "HelloWorld")))] ∧
    ClientsApart mixedRt (.empty 0) mixedSchedule h s := by
  have hrun : ((serviceMachine .faithful mixedRt).follow
      (Machine.init (Server.start (.empty 0))) mixedSchedule).map
        (fun p => p.2.threads.map fun t => t.code.answer?.map seen) =
      some [some (.inl 1), some (.inr (some (ascii "ok"))), some (.inl 1), some (.inl 0),
        some (.inr (some (ascii "HelloWorld")))] := by
    decide +kernel
  obtain ⟨⟨h, s⟩, hf, hs⟩ := Option.map_eq_some_iff.mp hrun
  exact ⟨h, s, hf, hs, clients_apart hf⟩

end Webstore
