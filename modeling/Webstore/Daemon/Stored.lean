/-
  Webstore.Daemon.Stored

  What is in the database.  Whatever comes in, in whatever order, and whatever
  Redis makes of the commands, the server leaves nothing behind but messages
  and counters: under a key that is a token in lower case a body as POST
  accepts it, whose life is over after `expiration` seconds if that is set, and
  under `IPS:` a positive number in decimal digits.
-/
import Webstore.Client.Decode
import Webstore.Conn.Count
import Webstore.Daemon.Live
import Webstore.Sched.Trace
import Webstore.Service.Apart

namespace Webstore

open Webstore.Libc Webstore.Sched

variable {rt : Wsrt}

/-! ## Entries -/

/-- A token as `convert_hash` spells it. -/
structure TokenKey (k : Bytes) : Prop where
  length : ∃ a : HashAlg, k.length = a.hashlen
  digits : ∀ c ∈ k, isxdigit c = true
  lower : k.map tolower = k

/-- The time to live a message is stored with. -/
def Wsrt.ttl (rt : Wsrt) : Option Nat := if rt.expiration = 0 then none else some rt.expiration

/-- A message in a store with these settings. -/
structure MessageEntry (rt : Wsrt) (now : Nat) (e : Expiry.Entry Bytes) : Prop where
  accepted : Accepted rt.maxPostDataSize.toNat e.val
  deadline : match e.deadline with
    | none => rt.ttl = none
    | some d => d ≤ now + 1000 * rt.expiration

/-- A counter, which may have lost its deadline. -/
structure CounterEntry (rt : Wsrt) (now : Nat) (e : Expiry.Entry Bytes) : Prop where
  count : ∃ n : Nat, 0 < n ∧ n < 2 ^ 63 ∧ e.val = decimal n
  deadline : ∀ d, e.deadline = some d → d ≤ now + 1000 * rt.reqperiod.toNat

/-- What may be found under a key. -/
inductive KeptEntry (rt : Wsrt) (now : Nat) : Bytes → Expiry.Entry Bytes → Prop where
  | message {k : Bytes} {e : Expiry.Entry Bytes} (hk : TokenKey k) (he : MessageEntry rt now e) :
      KeptEntry rt now k e
  | counter {e : Expiry.Entry Bytes} (ip : Bytes) (he : CounterEntry rt now e) :
      KeptEntry rt now (ipKey ip) e

/-- The database holds messages and counters only. -/
def WellKept (rt : Wsrt) (db : Db) : Prop := ∀ k e, db.get k = some e → KeptEntry rt db.now k e

theorem wellKept_empty (rt : Wsrt) (now : Nat) : WellKept rt (.empty now) := nofun

/-- An entry only gets nearer to its end. -/
theorem KeptEntry.later {now now' : Nat} (hnow : now ≤ now') {k : Bytes} {e : Expiry.Entry Bytes}
    (h : KeptEntry rt now k e) : KeptEntry rt now' k e := by
  cases h with
  | message hk he =>
      refine .message hk ⟨he.accepted, ?_⟩
      have hd := he.deadline
      cases hdl : e.deadline with
      | none => simpa [hdl] using hd
      | some d =>
          simp only [hdl] at hd
          exact hd.trans (by omega)
  | counter ip he => exact .counter ip ⟨he.count, fun d hd => (he.deadline d hd).trans (by omega)⟩

theorem WellKept.tick {db : Db} (h : WellKept rt db) (d : Nat) : WellKept rt (db.tick d) :=
  fun k e he => (h k e (Expiry.Map.get_of_get_tick he)).later (Nat.le_add_right _ _)

/-- What is left of a well-kept database is well kept. -/
theorem WellKept.erase {db : Db} (h : WellKept rt db) (k : Bytes) : WellKept rt (db.erase k) := by
  intro k' e he
  by_cases hk : k' = k
  · subst hk
    simp at he
  · rw [Expiry.Map.get_erase_ne _ hk] at he
    exact h k' e he

/-- An entry of one of the two kinds may be added. -/
theorem WellKept.put {db : Db} (h : WellKept rt db) {k : Bytes} {e : Expiry.Entry Bytes}
    (hk : KeptEntry rt db.now k e) : WellKept rt (db.put k e) := by
  intro k' e' he'
  by_cases hne : k' = k
  · subst hne
    rw [Expiry.Map.eq_of_get_put_self he']
    exact hk
  · rw [Expiry.Map.get_put_ne _ _ hne] at he'
    exact h k' e' he'

/-! ## Messages -/

theorem tolower_tolower (c : UInt8) : tolower (tolower c) = tolower c :=
  forall_byte (p := fun c => tolower (tolower c) = tolower c) (by decide +kernel) c

/-- The key of a call is a token in lower case. -/
theorem NodeReq.tokenKey {r : NodeReq} {k : Bytes} (h : r.token = some k) : TokenKey k := by
  unfold NodeReq.token at h
  split at h
  · rename_i hx
    obtain ⟨hlen, hhex⟩ := hx
    cases h
    refine ⟨⟨r.alg, by rw [List.length_map, hlen]⟩, ?_, ?_⟩
    · intro c hc
      obtain ⟨d, hd, rfl⟩ := List.mem_map.mp hc
      rw [isxdigit_tolower]
      exact List.all_eq_true.mp hhex d hd
    · rw [List.map_map]
      exact List.map_congr_left fun c _ => tolower_tolower c
  · cases h

theorem Exchange.Calls.tokenKey {x : Exchange} {c : Expiry.Call Bytes Bytes} (h : x.Calls rt c) :
    TokenKey c.key := by
  obtain ⟨-, ri, -, a, sfx, -, hc⟩ := h
  cases c with
  | get k => exact NodeReq.tokenKey (NodeReq.call_eq_get hc).2
  | put k v => exact NodeReq.tokenKey (NodeReq.call_eq_put hc).2.1

/-- What is posted is the body, and it is accepted. -/
theorem Exchange.Calls.accepted {x : Exchange} {k v : Bytes} (h : x.Calls rt (.put k v)) :
    v = x.body ∧ Accepted rt.maxPostDataSize.toNat v := by
  obtain ⟨hle, ri, -, a, sfx, -, hc⟩ := h
  obtain ⟨-, -, rfl, hfive, hz⟩ := NodeReq.call_eq_put hc
  exact ⟨rfl, hfive, by rw [z85Validate_eq, if_pos hz], hle⟩

theorem storeCommand_eq (rt : Wsrt) (k v : Bytes) :
    storeCommand rt k v = .set k v rt.ttl rt.immutable := rfl

/-- What a POST stores is a message. -/
theorem WellKept.store {db : Db} (h : WellKept rt db) {x : Exchange} {k v : Bytes}
    (hc : x.Calls rt (.put k v)) : WellKept rt (execute db (storeCommand rt k v)).2 := by
  rw [storeCommand_eq]
  rcases execute_set_cases db k v rt.ttl rt.immutable with
    ⟨-, msg, hx⟩ | ⟨-, -, -, hx⟩ | ⟨-, -, hx⟩ <;> rw [hx]
  · exact h
  · exact h
  · refine h.put (.message hc.tokenKey ⟨hc.accepted.2, ?_⟩)
    unfold deadlineAfter Wsrt.ttl
    by_cases he : rt.expiration = 0 <;> simp [he]

/-! ## Counters -/

/-- A counter that is added to is a counter. -/
theorem WellKept.incr {db : Db} (h : WellKept rt db) (ip : Bytes) :
    WellKept rt (execute db (.incr (ipKey ip))).2 := by
  cases hget : db.get (ipKey ip) with
  | none =>
      rw [execute_incr_none hget]
      -- a counter that is not there counts from nothing
      exact h.put (.counter ip ⟨⟨1, by decide, by decide, rfl⟩, nofun⟩)
  | some e =>
      simp only [execute, hget, incrEntry]
      split
      · exact h
      · rename_i n hn
        split
        · -- the counter has grown by one; its key is no token
          refine h.put ?_
          have hk := h _ _ hget
          generalize hkey : ipKey ip = k at hk
          cases hk with
          | message hk he => exact absurd (hkey ▸ hk.digits) (not_hexKey_ipKey ip)
          | counter ip' he =>
              obtain ⟨m, hpos, hlt, hm⟩ := he.count
              rw [hm, string2ll_decimal hlt, Option.some.injEq] at hn
              subst hn
              refine .counter ip' ⟨⟨m + 1, by omega, by omega, ?_⟩, he.deadline⟩
              exact ll2string_natCast (m + 1)
        · exact h

/-- What a check writes is a counter. -/
theorem WellKept.save {db : Db} (h : WellKept rt db) (ip : Bytes) (found : Bool) :
    WellKept rt (execute db (saveCommand ip found rt.reqperiod)).2 := by
  cases found with
  | true => exact h.incr ip
  | false =>
      simp only [saveCommand, if_true]
      rcases execute_set_cases db (ipKey ip) (ascii "1") (some rt.reqperiod.toNat) false with
        ⟨-, msg, hx⟩ | ⟨-, -, -, hx⟩ | ⟨-, -, hx⟩ <;> rw [hx]
      · exact h
      · exact h
      · refine h.put (.counter ip ⟨⟨1, by decide, by decide, rfl⟩, ?_⟩)
        rintro d ⟨⟩
        exact Nat.le_refl _

/-! ## The server -/

/-- No command that an arrival sends spoils the database. -/
theorem Arrival.Sends.wellKept {a : Arrival} {c : Cmd} (hc : a.Sends rt c) {db : Db}
    (h : WellKept rt db) : WellKept rt (execute db c).2 := by
  cases hc with
  | read ip =>
      rw [execute_get]
      exact h
  | save ip found => exact h.save ip found
  | get hc =>
      rw [execute_get]
      exact h
  | burn hc => exact h.erase _
  | put hc => exact h.store hc

/-- Time removes entries and adds none. -/
theorem WellKept.env {P : Policy} {e : Env} {s s' : Server} (h : WellKept rt s.db)
    (he : Server.env P e s = some s') : WellKept rt s'.db := by
  cases e with
  | tick d =>
      cases he
      exact h.tick d
  | signal =>
      simp only [Server.env, Option.ite_none_right_eq_some, Option.some.injEq] at he
      obtain ⟨-, rfl⟩ := he
      exact h

/-- No operation of the server does anything else. -/
theorem WellKept.exec {P : Policy} {a : Arrival} {o : RaiOp} (ho : o.Sends (a.Sends rt))
    {s s' : Server} {out : Outcome} {v : RaiOp.Ret o} (h : WellKept rt s.db)
    (hx : Server.exec P o s out = some (v, s')) : WellKept rt s'.db := by
  cases o with
  | redisCommand c =>
      simp only [Server.exec, Option.ite_none_right_eq_some, Option.some.injEq] at hx
      obtain ⟨-, hx⟩ := hx
      have hdb := Server.command_db (Q := WellKept rt) out h (Arrival.Sends.wellKept ho h)
      rwa [hx] at hdb
  | handleRedisError =>
      cases hx
      exact h
  | shuttingDown =>
      cases hx
      exact h
  | fault f => cases hx

/-- The commands of a thread that come from its arrival keep the database in
    order. -/
theorem daemon_local (hrt : rt.LimitOk) (P : Policy) :
    (daemonMachine P rt).Local (fun s => WellKept rt s.db) fun _ r p _ =>
      ∃ n, p.Within (S := Rai) (RaiOp.Sends (r.Sends rt)) n where
  env h he := h.env he
  starts _ r := ⟨5, (prompt_attend hrt r).within⟩
  lock := by
    rintro i r k es ⟨n, hn⟩
    cases n with
    | zero => exact hn.elim
    | succ n => exact ⟨n, hn⟩
  unlock := by
    rintro i r k es ⟨n, hn⟩
    cases n with
    | zero => exact hn.elim
    | succ n => exact ⟨n, hn⟩
  op := by
    rintro i r o k es a b c v ⟨n, hn⟩ hG hx
    cases n with
    | zero => exact hn.elim
    | succ n => exact ⟨hG.exec hn.1 hx, n, hn.2 v⟩

/-- In every state the server can reach from a database that is well kept, such
    as an empty one, its database is well kept. -/
theorem daemon_well_kept (hrt : rt.LimitOk) {P : Policy} {a : Server} (h₀ : WellKept rt a.db)
    {h : List DaemonEvent} {s : DaemonSys}
    (run : (daemonMachine P rt).Run (Machine.init a) h s) : WellKept rt s.shared.db :=
  ((daemon_local hrt P).kept (.init h₀) run).shared

/-- A POST in two pieces. -/
def helloPost : Exchange :=
  ⟨postHeaders, [ascii "Hello", ascii "World"], by unfold Pieces; decide⟩

/-- A POST and a connection, whose counter may or may not have been set. -/
def postAndConnection : List (Label Arrival Env Outcome) :=
  [.spawn (.exchange helloPost), .spawn (.connection (ascii "10.0.0.1")), .act 0 .answered,
    .act 0 .answered, .act 0 .answered, .act 0 .answered, .env (.tick 5), .act 1 .answered,
    .act 1 .answered, .act 1 (.lost true)]

theorem daemon_well_kept_hello :
    ∃ h s, (daemonMachine .anything throttledRt).Run (Machine.init (Server.start (.empty 0))) h s ∧
      s.shared.db.get lowerToken = some ⟨ascii "HelloWorld", none⟩ ∧
      WellKept throttledRt s.shared.db := by
  have hf : (((daemonMachine .anything throttledRt).follow (Machine.init (Server.start (.empty 0)))
      postAndConnection).map fun r => (r.2.shared.db.get lowerToken).map fun e =>
        (e.val, e.deadline)) = some (some (ascii "HelloWorld", none)) := by decide +kernel
  obtain ⟨h, s, run, hget⟩ := Machine.exists_run_of_follow hf
  refine ⟨h, s, run, ?_, daemon_well_kept ⟨by decide, by decide⟩ (wellKept_empty _ _) run⟩
  obtain ⟨⟨v, d⟩, he, heq⟩ := Option.map_eq_some_iff.mp hget
  obtain ⟨rfl, rfl⟩ := Prod.mk.inj heq
  exact he

end Webstore
