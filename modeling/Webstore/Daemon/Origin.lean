/-
  Webstore.Daemon.Origin

  Where the bodies come from that the server delivers.  Whatever Redis does
  and however requests and connections interleave, a GET that is answered 200
  delivers the body of the last POST that its key got, and that no longer ago
  than `expiration` seconds; a POST that is answered 200 has left its body in
  the database.  Nobody else's body, and none that has been replaced, removed
  or outlived, is ever delivered.
-/
import Webstore.Daemon.Stored

namespace Webstore

open Webstore.Libc Webstore.Sched

variable {rt : Wsrt} {P : Policy}

/-! ## Entries -/

/-- Where an entry that is found after `past` comes from: it was there at the
    start, or a POST brought it, and it has stayed since. -/
inductive Origin (rt : Wsrt) (a : Server) (past : List DaemonEvent) (k : Bytes)
    (e : Expiry.Entry Bytes) : Prop where
  | initial (h₀ : a.db.get k = some e) (hkept : ∀ ev ∈ past, ev.post.db.get k = some e)
  | posted {before mid : List DaemonEvent} {j : Nat} {y : Exchange} {reply : Option Reply}
      {pre post : Server}
      (hpast : past = before ++
        .op j (.exchange y) (.redisCommand (storeCommand rt k e.val)) reply pre post :: mid)
      (hcall : y.Calls rt (.put k e.val))
      (hdeadline : e.deadline = deadlineAfter pre.db.now rt.ttl)
      (hpost : post.db.get k = some e)
      (hkept : ∀ ev ∈ mid, ev.post.db.get k = some e)

/-- An operation leaves the database alone, or it is a command that takes effect. -/
theorem Server.exec_db {o : RaiOp} {s s' : Server} {out : Outcome} {v : RaiOp.Ret o}
    (hx : Server.exec P o s out = some (v, s')) :
    s'.db = s.db ∨ ∃ c, o = .redisCommand c ∧ s'.db = (execute s.db c).2 := by
  cases o with
  | redisCommand c =>
      simp only [Server.exec, Option.ite_none_right_eq_some, Option.some.injEq] at hx
      obtain ⟨-, hx⟩ := hx
      have hdb := Server.command_db (s := s) (c := c)
        (Q := fun db => db = s.db ∨ db = (execute s.db c).2) out (.inl rfl) (.inr rfl)
      rw [hx] at hdb
      exact hdb.imp_right fun h => ⟨c, rfl, h⟩
  | handleRedisError =>
      cases hx
      exact .inl rfl
  | shuttingDown =>
      cases hx
      exact .inl rfl
  | fault f => cases hx

/-- Only a POST brings a message. -/
theorem Arrival.Sends.brings {r : Arrival} {c : Cmd} (hc : r.Sends rt c) {db : Db} {k : Bytes}
    (hk : TokenKey k) {e : Expiry.Entry Bytes} (hpre : db.get k ≠ some e)
    (hpost : (execute db c).2.get k = some e) :
    ∃ y, r = .exchange y ∧ c = storeCommand rt k e.val ∧ y.Calls rt (.put k e.val) ∧
      e.deadline = deadlineAfter db.now rt.ttl := by
  have hkey : k = c.key := by
    by_contra hne
    exact hpre (((execute_frame db c).2 k hne).symm.trans hpost)
  cases hc with
  | read ip =>
      rw [execute_get] at hpost
      exact absurd hpost hpre
  | save ip found =>
      -- a counter is not kept under a token
      have hip : k = ipKey ip := by
        cases found <;> exact hkey
      exact absurd (hip ▸ hk.digits) (not_hexKey_ipKey ip)
  | get hc =>
      rw [execute_get] at hpost
      exact absurd hpost hpre
  | burn hc =>
      obtain rfl := hkey
      rw [execute_del] at hpost
      exact absurd ((Expiry.Map.get_erase_self db _).symm.trans hpost) nofun
  | @put y k' v hc =>
      obtain rfl : k = k' := hkey
      rw [storeCommand_eq] at hpost
      rcases execute_set_cases db k v rt.ttl rt.immutable with
        ⟨-, msg, hx⟩ | ⟨-, -, -, hx⟩ | ⟨-, -, hx⟩ <;> rw [hx] at hpost
      · exact absurd hpost hpre
      · exact absurd hpost hpre
      · obtain rfl := Expiry.Map.eq_of_get_put_self hpost
        exact ⟨y, rfl, rfl, hc, rfl⟩

/-- A message that is there has been there all along or has been posted. -/
theorem daemon_entry_origin (hrt : rt.LimitOk) {a : Server} {h : List DaemonEvent} {s : DaemonSys}
    (run : (daemonMachine P rt).Run (Machine.init a) h s) {k : Bytes} (hk : TokenKey k)
    {e : Expiry.Entry Bytes} (he : s.shared.db.get k = some e) : Origin rt a h k e := by
  rcases Machine.Linked.brought (fun s : Server => s.db.get k) (raiMachine_linked run) he with
    ⟨h₀, hkept⟩ | ⟨before, ev, mid, rfl, hpre, hpost, hkept⟩
  · exact .initial h₀ hkept
  · have hgen := run.genuine ev (by simp)
    cases ev with
    | env ev pre post => exact absurd ((Server.env_frame hgen).2 k e hpost) hpre
    | op j r o v pre post =>
        obtain ⟨out, hx⟩ := hgen
        rcases Server.exec_db hx with hdb | ⟨c, rfl, hdb⟩
        · exact absurd (hdb ▸ hpost) hpre
        · have hsends : r.Sends rt c :=
            run.ok_of_mem (fun r => (prompt_attend hrt r).within)
              (List.mem_append_right _ (.head _))
          have hpost' : (execute pre.db c).2.get k = some e := hdb ▸ hpost
          obtain ⟨y, rfl, rfl, hcall, hdl⟩ := hsends.brings hk hpre hpost'
          exact .posted rfl hcall hdl hpost hkept

/-! ## Answers -/

/-- What a 200 rests on. -/
inductive Delivered (rt : Wsrt) (a : Server) (h : List DaemonEvent) (i : Nat) (x : Exchange)
    (page : Bytes) : Prop where
  | config (hx : x.AsksConfig)
  | read {k : Bytes} {e : Expiry.Entry Bytes} {past later : List DaemonEvent} {pre post : Server}
      (hcall : x.Calls rt (.get k))
      (hh : h = past ++
        .op i (.exchange x) (.redisCommand (.get k)) (some (.string e.val)) pre post :: later)
      (hpage : page = cString e.val) (horigin : Origin rt a past k e)
      (hfresh : e.live pre.db.now = true)
  | stored {k v : Bytes} {past later : List DaemonEvent} {pre post : Server}
      (hcall : x.Calls rt (.put k v)) (hbody : v = x.body)
      (hh : h = past ++
        .op i (.exchange x) (.redisCommand (storeCommand rt k v)) (some (.status (ascii "OK"))) pre
          post :: later)
      (hpage : page = ascii "ok")
      (hpost : post.db.get k = some ⟨v, deadlineAfter pre.db.now rt.ttl⟩)

section
variable {i : Nat} {r : Arrival} {es : List DaemonEvent} {resp : Response}

/-- Taking the lock leaves no event. -/
theorem leads_enter {α : Type} {p : Prog Rai α} {b : α}
    (h : Leads RaiOp.observed i r (enter rt p) es (.done b)) :
    Leads RaiOp.observed i r p es (.done b) := by
  unfold enter at h
  split at h
  · cases h with
    | lock h => exact h
  · exact h

/-- Nor does giving it back. -/
theorem leads_leave {α : Type} {a b : α}
    (h : Leads RaiOp.observed i r (leave rt a) es (.done b)) : es = [] ∧ a = b := by
  unfold leave at h
  split at h
  · cases h with
    | unlock h => exact h.of_done
  · exact h.of_done

/-- A GET that is answered 200 was answered with a string. -/
theorem leads_afterGet {k : Bytes} {reply : Option Reply}
    (h : Leads RaiOp.observed i r (afterGet rt k reply) es (.done resp))
    (hok : (queued resp).IsOk) : ∃ str, reply = some (.string str) ∧ resp.page = cString str := by
  rcases reply with - | (str | - | str | z | str)
  · obtain ⟨-, pre, post, es', rfl, h⟩ := h.of_op rfl
    obtain ⟨-, rfl⟩ := leads_leave h
    exact absurd (isOk_queued hok) (by decide)
  · simp only [afterGet] at h
    refine ⟨str, rfl, ?_⟩
    split at h
    · obtain ⟨-, pre, post, es', rfl, h⟩ := h.of_op rfl
      obtain ⟨-, rfl⟩ := leads_leave h
      rfl
    · obtain ⟨-, rfl⟩ := leads_leave h
      rfl
  all_goals
    obtain ⟨-, rfl⟩ := leads_leave h
    exact absurd (isOk_queued hok) (by decide)

/-- A POST that is answered 200 was answered with a status. -/
theorem leads_afterSet {reply : Option Reply}
    (h : Leads RaiOp.observed i r (afterSet rt reply) es (.done resp))
    (hok : (queued resp).IsOk) : ∃ str, reply = some (.status str) ∧ resp.page = ascii "ok" := by
  cases reply with
  | none =>
      obtain ⟨-, pre, post, es', rfl, h⟩ := h.of_op rfl
      obtain ⟨-, rfl⟩ := leads_leave h
      exact absurd (isOk_queued hok) (by decide)
  | some reply =>
      obtain ⟨-, rfl⟩ := leads_leave h
      have hcode : (postResponse (postError reply)).code = httpOk := by
        rcases isOk_queued hok with hz | hcode
        · -- no code is 0
          rw [code_postResponse] at hz
          split at hz
          · cases hz
          · contradiction
        · exact hcode
      have hzero := (code_postResponse_postError reply).mp hcode
      obtain ⟨str, rfl, -⟩ := postError_eq_zero hzero
      exact ⟨str, rfl, by simp [postResponse, hzero]⟩

end

theorem not_isOk_stopping : ¬ (stopping.code = 0 ∨ stopping.code = httpOk) := by decide

/-- A reply that is no error is that of the command, as far as an event shows. -/
theorem reply_of_event {h : List DaemonEvent} {s : DaemonSys} {a : Server}
    (run : (daemonMachine P rt).Run (Machine.init a) h s) {i : Nat} {r : Arrival} {c : Cmd}
    {reply : Reply} {pre post : Server}
    (hm : (.op i r (.redisCommand c) (some reply) pre post : DaemonEvent) ∈ h)
    (hne : ∀ msg, reply ≠ .error msg) :
    reply = (execute pre.db c).1 ∧ post.db = (execute pre.db c).2 := by
  obtain ⟨out, hx⟩ := run.genuine _ hm
  simp only [raiMachine, Server.exec, Option.ite_none_right_eq_some, Option.some.injEq] at hx
  obtain ⟨-, hx⟩ := hx
  have hanswer : (pre.command c out).1 = some reply := by rw [hx]
  have hreply := Server.command_reply hanswer
  rw [hx] at hreply
  rcases hreply with ⟨msg, hmsg⟩ | hreply
  · exact absurd hmsg (hne msg)
  · exact hreply

/-- A GET that is answered 200 has read an entry, and the entry has an origin. -/
theorem delivered_get (hrt : rt.LimitOk) {a : Server} {h : List DaemonEvent} {s : DaemonSys}
    (run : (daemonMachine P rt).Run (Machine.init a) h s) {i : Nat} {x : Exchange} {k : Bytes}
    (hcall : x.Calls rt (.get k)) {resp : Response}
    (hl : Leads RaiOp.observed i (.exchange x) (callSection rt (.get k)) (own i h) (.done resp))
    (hok : (queued resp).IsOk) : Delivered rt a h i x (cString resp.page) := by
  obtain ⟨reply, pre, post, es, hown, hl⟩ := hl.of_op rfl
  obtain ⟨str, rfl, hstr⟩ := leads_afterGet hl hok
  have hmem := (mem_own.mp (hown ▸ List.mem_cons_self)).1
  obtain ⟨past, later, rfl⟩ := List.append_of_mem hmem
  obtain ⟨hreply, -⟩ := reply_of_event run hmem nofun
  -- the string is the value of the entry that was there
  obtain ⟨e, he, rfl⟩ : ∃ e, pre.db.get k = some e ∧ str = e.val := by
    cases hget : pre.db.get k with
    | none =>
        rw [execute_get_none hget] at hreply
        cases hreply
    | some e =>
        rw [execute_get_some hget] at hreply
        cases hreply
        exact ⟨e, rfl, rfl⟩
  obtain ⟨s', run', hs'⟩ := run.before rfl
  have hpre : s'.shared = pre := hs'
  refine .read hcall rfl ?_ ?_ (pre.db.live k e he)
  · rw [hstr, cString_cString]
  · exact daemon_entry_origin hrt run' hcall.tokenKey (by rw [hpre]; exact he)

/-- A POST that is answered 200 has left its body. -/
theorem delivered_put {a : Server} {h : List DaemonEvent} {s : DaemonSys}
    (run : (daemonMachine P rt).Run (Machine.init a) h s) {i : Nat} {x : Exchange} {k v : Bytes}
    (hcall : x.Calls rt (.put k v)) {resp : Response}
    (hl : Leads RaiOp.observed i (.exchange x) (callSection rt (.put k v)) (own i h) (.done resp))
    (hok : (queued resp).IsOk) : Delivered rt a h i x (cString resp.page) := by
  obtain ⟨reply, pre, post, es, hown, hl⟩ := hl.of_op rfl
  obtain ⟨str, rfl, hstr⟩ := leads_afterSet hl hok
  have hmem := (mem_own.mp (hown ▸ List.mem_cons_self)).1
  obtain ⟨past, later, rfl⟩ := List.append_of_mem hmem
  obtain ⟨hreply, hdb⟩ := reply_of_event run hmem nofun
  rw [storeCommand_eq] at hreply hdb
  -- of the replies to a SET only OK is a status
  rcases execute_set_cases pre.db k v rt.ttl rt.immutable with
    ⟨-, msg, hx⟩ | ⟨-, -, -, hx⟩ | ⟨hex, -, hx⟩ <;> rw [hx] at hreply hdb
  · cases hreply
  · cases hreply
  · cases hreply
    refine .stored hcall hcall.accepted.1 rfl ?_ ?_
    · rw [hstr]
      decide +kernel
    · rw [hdb]
      exact Expiry.Map.get_put_self _ _ (live_deadlineAfter hex)

/-- Every answer with code 200 delivers what its key got last, or has left a
    body there, unless it shows the configuration. -/
theorem daemon_origin (hrt : rt.LimitOk) {a : Server} {h : List DaemonEvent} {s : DaemonSys}
    (run : (daemonMachine P rt).Run (Machine.init a) h s) {i : Nat} {x : Exchange} {page : Bytes}
    (ht : s.threads[i]? = some ⟨.exchange x, .done (.result (.queued ⟨httpOk, page⟩))⟩) :
    Delivered rt a h i x page := by
  -- the answer of the thread is that of the framework
  obtain ⟨res, hres, hl⟩ := (run.leads ht).of_map
  obtain rfl := Departure.result.inj hres
  have hform := exchange_form hrt x
  revert hl hform
  generalize uhdRequest (webstoreStart rt) x.hdr x.chunks = p
  rintro hl (⟨r, hr⟩ | ⟨resp, hr⟩ | @⟨c, hcall⟩)
  · obtain ⟨-, rfl⟩ := hl.of_done
    exact absurd ⟨page, rfl⟩ hr
  · obtain ⟨stop, hl⟩ := hl.of_quiet rfl
    obtain ⟨-, hpage⟩ := hl.of_done
    cases stop with
    | true => exact absurd (isOk_queued ⟨page, hpage⟩) not_isOk_stopping
    | false => exact .config (hr ⟨page, hpage⟩)
  · obtain ⟨stop, hl⟩ := hl.of_quiet rfl
    cases stop with
    | true =>
        obtain ⟨-, hpage⟩ := hl.of_done
        exact absurd (isOk_queued ⟨page, hpage⟩) not_isOk_stopping
    | false =>
        obtain ⟨resp, hpage, hl⟩ := hl.of_map
        have hok : (queued resp).IsOk := ⟨page, hpage⟩
        have hcut : page = cString resp.page := by
          simp only [queued, MhdResult.queued.injEq, Response.mk.injEq] at hpage
          exact hpage.2.symm
        rw [hcut]
        cases c with
        | get k => exact delivered_get hrt run hcall (leads_enter hl) hok
        | put k v => exact delivered_put run hcall (leads_enter hl) hok

/-- A GET for the same token, spelled in lower case. -/
def helloGet : Exchange :=
  ⟨⟨some (ascii "/store/128/" ++ lowerToken), some (ascii "GET"), some (ascii "HTTP/1.1"), none⟩,
    [], pieces_nil⟩

/-- A POST and a GET that has to wait for the lock. -/
def postThenGet : List (Label Arrival Env Outcome) :=
  [.spawn (.exchange helloPost), .spawn (.exchange helloGet), .act 0 .answered, .act 0 .answered,
    .act 1 .answered, .act 0 .answered, .act 0 .answered, .act 1 .answered, .act 1 .answered,
    .act 1 .answered]

theorem daemon_origin_hello :
    ∃ h s, (daemonMachine .anything defaultRt).Run (Machine.init (Server.start (.empty 0))) h s ∧
      Delivered defaultRt (Server.start (.empty 0)) h 1 helloGet (ascii "HelloWorld") := by
  have hans : daemonAnswers .anything defaultRt (Server.start (.empty 0)) postThenGet =
      some [(.exchange helloPost, some (.result (.queued ⟨httpOk, ascii "ok"⟩))),
        (.exchange helloGet, some (.result (.queued ⟨httpOk, ascii "HelloWorld"⟩)))] := by
    decide +kernel
  obtain ⟨h, s, run, -, hthreads⟩ := run_of_daemonAnswers hans
  exact ⟨h, s, run, daemon_origin ⟨by decide, by decide⟩ run (hthreads 1 _ _ rfl)⟩

end Webstore
