/-
  Webstore.Node.Status

  What a status code says about the store, whatever Redis answers, with `bar`
  off.  The codes of a POST tell the truth.  A GET is answered 404 not only if
  Redis reports that the token is absent: `get` looks for a string and takes
  every other reply, a refusal like LOADING or OOM included, for an absence,
  where `do_redis_post` answers 417.
-/
import Webstore.Node.Rule
import Webstore.Sched.Local

namespace Webstore

open Webstore.Libc Webstore.Sched

/-! ## Any reply -/

/-- The replies that tell what became of a command. -/
def Cmd.reports : Cmd → Reply → Bool
  | .get _, .string _ => true
  | .get _, .nil => true
  | .set .., .status str => str.take 2 == ascii "OK"
  | .set .., .nil => true
  | .del _, .integer _ => true
  | .incr _, .integer _ => true
  | _, _ => false

namespace Status

/-- What may become of a command: it is executed and answered; it has no
    effect, and the reply tells so or nothing at all; or no reply comes back. -/
inductive Answer where
  | executed
  | odd (reply : Reply)
  | lost (effect : Bool)

/-- `redisCommand` on the shared context. -/
def command (s : Server) (c : Cmd) : Answer → Option (Option Reply × Server)
  | .executed => some (s.command c .answered)
  | .lost effect => some (s.command c (.lost effect))
  | .odd reply =>
      if c.reports reply then none else some (if s.broken then none else some reply, s)

/-- The effect of one operation. -/
def exec : (o : RaiOp) → Server → Answer → Option (RaiOp.Ret o × Server)
  | .redisCommand c, s, ans => command s c ans
  | .handleRedisError, s, _ => some ((), s.stop)
  | .shuttingDown, s, _ => some (s.shutdown, s)
  | .fault _, _, _ => none

/-- The store nodes on a Redis that may give any reply. -/
@[reducible] def machine (rt : Wsrt) : Machine Rai Server NodeReq Response Env Answer where
  body := NodeReq.serve rt
  exec := exec
  env := Server.env .anything
  observed := RaiOp.observed
  concurrent := rt.multithreaded

/-- What a reply to each command says about the store. -/
inductive Reported (c : Cmd) (pre post : Server) : Reply → Prop where
  | executed (h : post.db = (execute pre.db c).2) : Reported c pre post (execute pre.db c).1
  | odd {reply : Reply} (h : post.db = pre.db) (hr : c.reports reply = false) :
      Reported c pre post reply

/-- A reply reports what the command has done. -/
theorem reported_of_command {s s' : Server} {c : Cmd} {ans : Answer} {reply : Reply}
    (h : command s c ans = some (some reply, s')) : Reported c s s' reply := by
  cases ans with
  | executed =>
      simp only [command, Option.some.injEq] at h
      -- a broken context replies nothing; otherwise the command was executed
      rcases s.command_cases c .answered with ⟨-, hx⟩ | ⟨-, hx⟩ | ⟨-, msg, hx⟩ | ⟨-, _, -, hx⟩
      · rw [hx] at h
        cases h
      · rw [hx] at h
        cases h
        exact .executed rfl
      · rw [hx] at h
        cases h
        exact .odd rfl (by cases c <;> rfl)
      · rw [hx] at h
        cases h
  | odd reply' =>
      simp only [command, Option.ite_none_left_eq_some, Bool.not_eq_true, Option.some.injEq,
        Prod.mk.injEq] at h
      obtain ⟨hr, hreply, rfl⟩ := h
      obtain ⟨-, rfl⟩ := hreply
      exact .odd rfl hr
  | lost effect =>
      simp only [command, Option.some.injEq] at h
      unfold Server.command at h
      split at h <;> cases h

/-! ## One command, one answer -/

/-- The command of a call. -/
def callCommand (rt : Wsrt) : Expiry.Call Bytes Bytes → Cmd
  | .get k => .get k
  | .put k v => storeCommand rt k v

/-- The answer to a call by the reply to its command. -/
def replyResponse : Expiry.Call Bytes Bytes → Reply → Response
  | .get _, .string str => ⟨httpOk, cString str⟩
  | .get _, _ => notFound
  | .put _ _, reply => postResponse (postError reply)

/-- How a request was answered, and the events it left. -/
inductive Served (rt : Wsrt) (i : Nat) (r : NodeReq) : Response → List NodeEvent → Prop where
  | stopping : Served rt i r stopping []
  | refused {resp : Response} (hc : r.call = .error resp) : Served rt i r resp []
  | answered {c : Expiry.Call Bytes Bytes} (hc : r.call = .ok c) {reply : Reply}
      {pre post : Server} (hr : Reported (callCommand rt c) pre post reply) :
      Served rt i r (replyResponse c reply)
        [commandEvent i r (callCommand rt c) (some reply) pre post]
  | lost {c : Cmd} {pre post mid mid' : Server} :
      Served rt i r unavailable
        [commandEvent i r c none pre post, .op (S := Rai) i r .handleRedisError () mid mid']

/-- Where a request stands, by the events it has left. -/
inductive Stage (rt : Wsrt) (i : Nat) (r : NodeReq) :
    Prog Rai Response → List NodeEvent → Prop where
  | dispatch {p : Prog Rai Response} (hp : p = r.serve rt) : Stage rt i r p []
  | enter {c : Expiry.Call Bytes Bytes} {p : Prog Rai Response} (hc : r.call = .ok c)
      (hp : p = .lock (callSection rt c)) : Stage rt i r p []
  | start {c : Expiry.Call Bytes Bytes} {p : Prog Rai Response} (hc : r.call = .ok c)
      (hp : p = callSection rt c) : Stage rt i r p []
  | failing {c : Cmd} {pre post : Server} {p : Prog Rai Response}
      (hp : p = .op (S := Rai) .handleRedisError fun _ => leave rt unavailable) :
      Stage rt i r p [commandEvent i r c none pre post]
  | leaving {a : Response} {es : List NodeEvent} {p : Prog Rai Response}
      (ha : Served rt i r a es) (hp : p = .unlock (.done a)) : Stage rt i r p es
  | done {a : Response} {es : List NodeEvent} {p : Prog Rai Response}
      (ha : Served rt i r a es) (hp : p = .done a) : Stage rt i r p es

variable {rt : Wsrt} {i : Nat} {r : NodeReq}

theorem stage_leave {a : Response} {es : List NodeEvent} (ha : Served rt i r a es) :
    Stage rt i r (leave rt a) es := by
  unfold leave
  split
  · exact .leaving ha rfl
  · exact .done ha rfl

/-- A request starts at its first stage. -/
theorem stage_flow : Stage rt i r (r.flow rt) [] := by
  unfold NodeReq.flow
  cases hc : r.call with
  | error resp => exact .done (.refused hc) rfl
  | ok c =>
      simp only [enter]
      split
      · exact .enter hc rfl
      · exact .start hc rfl

/-- Once the reply is there, the answer is determined. -/
theorem stage_reply (hbar : rt.bar = false) {c : Expiry.Call Bytes Bytes} (hc : r.call = .ok c)
    {k : Option Reply → Prog Rai Response}
    (hk : .op (S := Rai) (.redisCommand (callCommand rt c)) k = callSection rt c)
    {v : Option Reply} {pre post : Server}
    (hv : ∀ reply, v = some reply → Reported (callCommand rt c) pre post reply) :
    Stage rt i r (k v) [commandEvent i r (callCommand rt c) v pre post] := by
  cases c with
  | get key =>
      cases hk
      rcases v with - | (str | - | str | n | str)
      · exact .failing rfl
      · simp only [afterGet, hbar, Bool.false_eq_true, if_false]
        exact stage_leave (.answered (c := .get key) hc (hv _ rfl))
      all_goals exact stage_leave (.answered (c := .get key) hc (hv _ rfl))
  | put key val =>
      cases hk
      cases v with
      | none => exact .failing rfl
      | some reply => exact stage_leave (.answered (c := .put key val) hc (hv _ rfl))

/-- Taking the lock leads to the next stage. -/
theorem Stage.lock {k : Prog Rai Response} {es : List NodeEvent} (h : Stage rt i r (.lock k) es) :
    Stage rt i r k es := by
  cases h with
  | dispatch hp =>
      rw [r.serve_eq rt] at hp
      cases hp
  | enter hc hp =>
      cases hp
      exact .start hc rfl
  | start hc hp =>
      obtain ⟨_, _, hop⟩ := callSection_eq_op rt _
      cases hp.trans hop
  | failing hp => cases hp
  | leaving ha hp => cases hp
  | done ha hp => cases hp

/-- So does giving it back. -/
theorem Stage.unlock {k : Prog Rai Response} {es : List NodeEvent}
    (h : Stage rt i r (.unlock k) es) : Stage rt i r k es := by
  cases h with
  | dispatch hp =>
      rw [r.serve_eq rt] at hp
      cases hp
  | enter hc hp => cases hp
  | start hc hp =>
      obtain ⟨_, _, hop⟩ := callSection_eq_op rt _
      cases hp.trans hop
  | failing hp => cases hp
  | leaving ha hp =>
      cases hp
      exact .done ha rfl
  | done ha hp => cases hp

theorem callSection_eq_command (rt : Wsrt) (c : Expiry.Call Bytes Bytes) :
    ∃ k, callSection rt c = .op (S := Rai) (.redisCommand (callCommand rt c)) k := by
  cases c with
  | get key => exact ⟨_, rfl⟩
  | put key val => exact ⟨_, rfl⟩

/-- So does every command, whatever is replied. -/
theorem Stage.op (hbar : rt.bar = false) {o : RaiOp} {k : RaiOp.Ret o → Prog Rai Response}
    {es : List NodeEvent} {a b : Server} {ans : Answer} {v : RaiOp.Ret o}
    (h : Stage rt i r (.op (S := Rai) o k) es) (hx : exec o a ans = some (v, b)) :
    Stage rt i r (k v) (es ++ if o.observed then [.op (S := Rai) i r o v a b] else []) := by
  cases h with
  | dispatch hp =>
      rw [r.serve_eq rt] at hp
      cases hp
      cases hx
      simp only [RaiOp.observed, Bool.false_eq_true, if_false, List.append_nil]
      split
      · exact .done .stopping rfl
      · exact stage_flow
  | enter hc hp => cases hp
  | start hc hp =>
      rename_i c
      -- the one command of the call
      obtain ⟨k', hk'⟩ := callSection_eq_command rt c
      rw [hk'] at hp
      cases hp
      apply stage_reply hbar hc hk'.symm
      rintro reply rfl
      exact reported_of_command hx
  | failing hp =>
      cases hp
      cases hx
      exact stage_leave .lost
  | leaving ha hp => cases hp
  | done ha hp => cases hp

/-- A thread is always at some stage. -/
theorem stage_local (hbar : rt.bar = false) :
    Machine.Local (machine rt) (fun _ => True) (Stage rt) where
  env _ _ := trivial
  starts _ _ := .dispatch rfl
  lock h := h.lock
  unlock h := h.unlock
  op h _ hx := ⟨trivial, h.op hbar hx⟩

/-! ## The truth -/

/-- The codes of thread `i` say what its command did to the store. -/
structure Truthful (rt : Wsrt) (i : Nat) (r : NodeReq) (a : Response) (h : List NodeEvent) :
    Prop where
  /-- 200 for a GET: the body that is bound to the token. -/
  found : r.method = .get → a.code = httpOk → ∃ k reply pre post e, r.token = some k ∧
    commandEvent i r (.get k) (some reply) pre post ∈ h ∧ pre.db.get k = some e ∧ a.page = e.val
  /-- 404 for a GET: Redis reported that the token is absent. -/
  absent : r.method = .get → a.code = httpNotFound → ∃ k pre post, r.token = some k ∧
    commandEvent i r (.get k) (some .nil) pre post ∈ h ∧ pre.db.get k = none
  /-- 200 for a POST: now the token is bound to the body. -/
  stored : r.method = .post → a.code = httpOk → ∃ k reply pre post e, r.token = some k ∧
    commandEvent i r (storeCommand rt k r.body) reply pre post ∈ h ∧
    post.db.get k = some e ∧ e.val = r.body
  /-- 304 for a POST: the token was bound and stays as it is. -/
  bound : r.method = .post → a.code = httpNotModified → rt.immutable = true ∧
    ∃ k reply pre post, r.token = some k ∧
      commandEvent i r (storeCommand rt k r.body) reply pre post ∈ h ∧
      (pre.db.get k).isSome = true
  /-- Everything else is an error. -/
  error : a.code = httpOk ∨ r.method = .get ∧ a.code = httpNotFound ∨
    r.method = .post ∧ a.code = httpNotModified ∨
    400 ≤ a.code ∧ a.code ≠ httpNotFound
  /-- A POST that is answered neither 200 nor 503 leaves the store. -/
  kept : r.method = .post → a.code ≠ httpOk → a.code ≠ httpServiceUnavailable →
    ∀ ev ∈ h, ev.tid = some i → ev.post.db = ev.pre.db

/-- A GET that Redis answers with neither a C string nor nil. -/
def Misread (i : Nat) (r : NodeReq) (h : List NodeEvent) : Prop :=
  r.method = .get ∧ ∃ c reply pre post, commandEvent i r c (some reply) pre post ∈ h ∧
    reply ≠ .nil ∧ ∀ str, reply = .string str → ¬ NulFree str

/-- Whether an answer is truthful depends on the events of its thread only. -/
theorem truthful_own {a : Response} {h : List NodeEvent} :
    Truthful rt i r a (own i h) ↔ Truthful rt i r a h := by
  -- the truth speaks of the events of thread `i` only
  have hmem : ∀ c v pre post,
      commandEvent i r c v pre post ∈ own i h ↔ commandEvent i r c v pre post ∈ h :=
    fun c v pre post => by simp [mem_own]
  constructor
  · intro H
    refine ⟨?_, ?_, ?_, ?_, H.error,
      fun hr hn hu ev hm ht => H.kept hr hn hu ev (mem_own.mpr ⟨hm, ht⟩) ht⟩
    · simpa only [hmem] using H.found
    · simpa only [hmem] using H.absent
    · simpa only [hmem] using H.stored
    · simpa only [hmem] using H.bound
  · intro H
    refine ⟨?_, ?_, ?_, ?_, H.error,
      fun hr hn hu ev hm ht => H.kept hr hn hu ev (mem_own.mp hm).1 ht⟩
    · simpa only [hmem] using H.found
    · simpa only [hmem] using H.absent
    · simpa only [hmem] using H.stored
    · simpa only [hmem] using H.bound

theorem misread_own {h : List NodeEvent} : Misread i r (own i h) ↔ Misread i r h := by
  have hmem : ∀ c v pre post,
      commandEvent i r c v pre post ∈ own i h ↔ commandEvent i r c v pre post ∈ h :=
    fun c v pre post => by simp [mem_own]
  unfold Misread
  simp only [hmem]

/-! ## Answers without a reply -/

/-- An error that leaves nothing is true. -/
theorem truthful_of_error {a : Response} {es : List NodeEvent} (h₁ : 400 ≤ a.code)
    (h₂ : a.code ≠ httpNotFound)
    (hkept : a.code ≠ httpServiceUnavailable → ∀ ev ∈ es, ev.post.db = ev.pre.db) :
    Truthful rt i r a es where
  found _ ha := by
    rw [ha] at h₁
    exact absurd h₁ (by decide)
  absent _ ha := absurd ha h₂
  stored _ ha := by
    rw [ha] at h₁
    exact absurd h₁ (by decide)
  bound _ ha := by
    rw [ha] at h₁
    exact absurd h₁ (by decide)
  error := .inr (.inr (.inr ⟨h₁, h₂⟩))
  kept _ _ hu ev hm _ := hkept hu ev hm

/-! ## A GET and its reply -/

/-- A string is the value that was there. -/
theorem reported_string {k str : Bytes} {pre post : Server}
    (h : Reported (.get k) pre post (.string str)) : ∃ e, pre.db.get k = some e ∧ str = e.val := by
  generalize hs : Reply.string str = reply at h
  cases h with
  | executed _ =>
      cases hk : pre.db.get k with
      | none =>
          rw [execute_get_none hk] at hs
          cases hs
      | some e =>
          rw [execute_get_some hk] at hs
          cases hs
          exact ⟨e, rfl, rfl⟩
  | odd _ hr =>
      subst hs
      cases hr

/-- Nil is replied where there was nothing. -/
theorem reported_nil {k : Bytes} {pre post : Server} (h : Reported (.get k) pre post .nil) :
    pre.db.get k = none := by
  generalize hs : Reply.nil = reply at h
  cases h with
  | executed _ =>
      cases hk : pre.db.get k with
      | none => rfl
      | some e =>
          rw [execute_get_some hk] at hs
          cases hs
  | odd _ hr =>
      subst hs
      cases hr

/-- The only event of a GET. -/
theorem eq_of_mem_get {k k' : Bytes} {v v' : Option Reply} {pre post pre' post' : Server}
    (h : commandEvent i r (.get k') v' pre' post' ∈ [commandEvent i r (.get k) v pre post]) :
    v' = v ∧ pre' = pre := by
  simp only [List.mem_singleton, Event.op.injEq] at h
  exact ⟨eq_of_heq h.2.2.2.1, h.2.2.2.2.1⟩

/-- A string is the body, as far as it is a C string. -/
theorem truthful_string {k str : Bytes} (hc : r.call = .ok (.get k)) {pre post : Server}
    (h : Reported (.get k) pre post (.string str)) :
    Truthful rt i r ⟨httpOk, cString str⟩
        [commandEvent i r (.get k) (some (.string str)) pre post] ↔ NulFree str := by
  obtain ⟨hm, ht⟩ := NodeReq.call_eq_get hc
  have hpost : r.method ≠ .post := by simp [hm]
  -- a string reply is the value that is stored
  obtain ⟨e, hk, rfl⟩ := reported_string h
  constructor
  · intro H
    obtain ⟨k', reply', pre', post', e', ht', hev, hk', hpage⟩ := H.found hm rfl
    obtain ⟨-, rfl⟩ := eq_of_mem_get hev
    rw [ht] at ht'
    cases ht'
    rw [hk] at hk'
    cases hk'
    rw [← hpage]
    exact nulFree_cString _
  · intro hnul
    exact
      { found := fun _ _ => ⟨k, _, pre, post, e, ht, List.mem_singleton.mpr rfl, hk,
          cString_of_nulFree hnul⟩
        absent := fun _ ha => by cases ha
        stored := fun h => absurd h hpost
        bound := fun h => absurd h hpost
        error := .inl rfl
        kept := fun h => absurd h hpost }

/-- 404 is true of a token that is absent, and of no other. -/
theorem truthful_notFound {k : Bytes} (hc : r.call = .ok (.get k)) {reply : Reply}
    {pre post : Server} (h : Reported (.get k) pre post reply) :
    Truthful rt i r notFound [commandEvent i r (.get k) (some reply) pre post] ↔ reply = .nil := by
  obtain ⟨hm, ht⟩ := NodeReq.call_eq_get hc
  have hpost : r.method ≠ .post := by simp [hm]
  constructor
  · intro H
    obtain ⟨k', pre', post', -, hev, -⟩ := H.absent hm rfl
    exact (Option.some.inj (eq_of_mem_get hev).1).symm
  · rintro rfl
    exact
      { found := fun _ ha => by cases ha
        absent := fun _ _ => ⟨k, pre, post, ht, List.mem_singleton.mpr rfl, reported_nil h⟩
        stored := fun h => absurd h hpost
        bound := fun h => absurd h hpost
        error := .inr (.inl ⟨hm, rfl⟩)
        kept := fun h => absurd h hpost }

/-- A GET that was answered, by the event it left. -/
theorem truthful_get {k : Bytes} (hc : r.call = .ok (.get k)) {reply : Reply} {pre post : Server}
    (h : Reported (.get k) pre post reply) :
    Truthful rt i r (replyResponse (.get k) reply)
        [commandEvent i r (.get k) (some reply) pre post] ↔
      ¬ Misread i r [commandEvent i r (.get k) (some reply) pre post] := by
  have hmis : Misread i r [commandEvent i r (.get k) (some reply) pre post] ↔
      reply ≠ .nil ∧ ∀ str, reply = .string str → ¬ NulFree str := by
    simp [Misread, (NodeReq.call_eq_get hc).1]
  rw [hmis]
  -- a string is delivered, and every other reply is answered 404
  rcases reply with str | - | str | n | str
  · rw [replyResponse, truthful_string hc h]
    simp
  all_goals
    rw [replyResponse, truthful_notFound hc h]
    · simp
    · nofun

/-! ## A POST and its reply -/

/-- What the replies to `SET` report, as `do_redis_post` reads them. -/
theorem reported_set {k v : Bytes} {ex : Option Nat} {nx : Bool} {pre post : Server} {reply : Reply}
    (h : Reported (.set k v ex nx) pre post reply) :
    (postError reply = 0 ∧ post.db.get k = some ⟨v, deadlineAfter pre.db.now ex⟩) ∨
    (postError reply = 304 ∧ nx = true ∧ (pre.db.get k).isSome = true ∧ post.db = pre.db) ∨
    ((postError reply = 417 ∨ postError reply = 500) ∧ post.db = pre.db) := by
  cases h with
  | executed hdb =>
      rcases execute_set_cases pre.db k v ex nx with ⟨-, msg, hx⟩ | ⟨-, hnx, hk, hx⟩ | ⟨hex, -, hx⟩
      · rw [hx] at hdb ⊢
        exact .inr (.inr ⟨.inl rfl, hdb⟩)
      · rw [hx] at hdb ⊢
        exact .inr (.inl ⟨rfl, hnx, hk, hdb⟩)
      · rw [hx] at hdb ⊢
        refine .inl ⟨rfl, ?_⟩
        rw [hdb, Expiry.Map.get_put_self _ _ (live_deadlineAfter hex)]
  | odd hdb hr =>
      -- an odd reply: nil and "OK" are what SET itself says
      refine .inr (.inr ⟨?_, hdb⟩)
      rcases reply with str | - | str | n | str
      · exact .inr rfl
      · cases hr
      · have hok : str.take 2 ≠ ascii "OK" := by simpa [Cmd.reports] using hr
        simp [postError, hok]
      · exact .inr rfl
      · exact .inl rfl

/-- A POST that was answered, by the event it left. -/
theorem truthful_put {k v : Bytes} (hc : r.call = .ok (.put k v)) {reply : Reply}
    {pre post : Server} (h : Reported (storeCommand rt k v) pre post reply) :
    Truthful rt i r (replyResponse (.put k v) reply)
      [commandEvent i r (storeCommand rt k v) (some reply) pre post] := by
  obtain ⟨hm, ht, rfl, -⟩ := NodeReq.call_eq_put hc
  have hget : r.method ≠ .get := by simp [hm]
  have hmem := List.mem_singleton.mpr
    (rfl : commandEvent i r (storeCommand rt k r.body) (some reply) pre post = _)
  have hcode := code_postResponse (postError reply)
  rw [replyResponse]
  -- stored, bound already, or an error that changed nothing
  rcases reported_set h with ⟨hz, hk⟩ | ⟨hz, hnx, hk, hdb⟩ | ⟨hz, hdb⟩
  · rw [hz] at hcode
    have hok : (postResponse (postError reply)).code = httpOk := by rw [hz]; rfl
    exact
      { found := fun h => absurd h hget
        absent := fun h => absurd h hget
        stored := fun _ _ => ⟨k, _, pre, post, _, ht, hmem, hk, rfl⟩
        bound := fun _ ha => by rw [hok] at ha; cases ha
        error := .inl hok
        kept := fun _ hn => absurd hok hn }
  · have hcode : (postResponse (postError reply)).code = httpNotModified := by rw [hz]; rfl
    exact
      { found := fun h => absurd h hget
        absent := fun h => absurd h hget
        stored := fun _ ha => by rw [hcode] at ha; cases ha
        bound := fun _ _ => ⟨hnx, k, _, pre, post, ht, hmem, hk⟩
        error := .inr (.inr (.inl ⟨hm, hcode⟩))
        kept := fun _ _ _ ev hev _ => by rw [List.mem_singleton.mp hev]; exact hdb }
  · have herr : 400 ≤ (postResponse (postError reply)).code ∧
        (postResponse (postError reply)).code ≠ httpNotFound := by
      rcases hz with hz | hz <;> rw [hz] <;> decide
    refine truthful_of_error herr.1 herr.2 fun _ ev hev => ?_
    rw [List.mem_singleton.mp hev]
    exact hdb

/-! ## Every answer -/

/-- The answer to a request that has been served is truthful unless a reply was
    misread. -/
theorem truthful_served {a : Response} {es : List NodeEvent} (h : Served rt i r a es) :
    Truthful rt i r a es ↔ ¬ Misread i r es := by
  cases h with
  | stopping =>
      exact iff_of_true (truthful_of_error (by decide) (by decide) (by simp)) (by simp [Misread])
  | refused hc =>
      have herr : 400 ≤ a.code ∧ a.code ≠ httpNotFound := by
        rcases NodeReq.call_error hc with ⟨h, -⟩ | ⟨h, -⟩
        · rw [h]
          decide
        · rw [h]
          decide
      exact iff_of_true (truthful_of_error herr.1 herr.2 (by simp)) (by simp [Misread])
  | lost =>
      refine iff_of_true (truthful_of_error (by decide) (by decide) fun hn => absurd rfl hn) ?_
      simp [Misread]
  | answered hc hr =>
      rename_i c reply pre post
      cases c with
      | get k => exact truthful_get hc hr
      | put k v =>
          refine iff_of_true (truthful_put hc hr) fun hm => ?_
          -- only a GET misreads
          have := (NodeReq.call_eq_put hc).1
          rw [hm.1] at this
          cases this

/-- In every run the codes tell the truth, but for a GET that takes a refusal
    for an absence. -/
theorem statuses_truthful_iff (hbar : rt.bar = false) (db₀ : Db) {h : List NodeEvent}
    {s : Sys Rai Server NodeReq Response}
    (run : (machine rt).Run (Machine.init (Server.start db₀)) h s) {i : Nat}
    {t : Thread Rai NodeReq Response} {a : Response} (ht : s.threads[i]? = some t)
    (ha : t.code = .done a) : Truthful rt i t.req a h ↔ ¬ Misread i t.req h := by
  have K := (stage_local hbar).kept (.init trivial) run
  have hstage := K.threads i t ht
  -- a thread with an answer is at its last stage
  have hserved : Served rt i t.req a (own i h) := by
    rw [ha] at hstage
    generalize hes : own i h = es at hstage
    cases hstage with
    | dispatch hp =>
        rw [t.req.serve_eq rt] at hp
        cases hp
    | enter hc hp => cases hp
    | start hc hp =>
        obtain ⟨_, _, hop⟩ := callSection_eq_op rt _
        cases hp.trans hop
    | failing hp => cases hp
    | leaving ha hp => cases hp
    | done ha hp =>
        cases hp
        exact ha
  rw [← truthful_own, ← misread_own]
  exact truthful_served hserved

/-- A store that keeps everything and burns nothing. -/
def plainRt : Wsrt := ⟨true, 0, 0, 0, 0, false, false⟩

/-- A POST, a GET, and a POST that Redis refuses. -/
def plainSchedule : List (Label NodeReq Env Answer) :=
  [.spawn ⟨.alg128, .post, lowerToken, ascii "HelloWorld"⟩, .spawn ⟨.alg128, .get, upperToken, []⟩,
    .spawn ⟨.alg128, .post, upperToken, ascii "12345"⟩,
    .act 0 .executed, .act 1 .executed, .act 2 .executed, .act 0 .executed, .act 0 .executed,
    .act 0 .executed, .act 2 .executed, .act 2 (.odd (.error (ascii "OOM"))), .act 2 .executed,
    .act 1 .executed, .act 1 .executed, .act 1 .executed]

theorem statuses_truthful_plain :
    ∃ h s t, (machine plainRt).Run (Machine.init (Server.start (.empty 0))) h s ∧
      s.threads[1]? = some t ∧ t.code = .done ⟨200, ascii "HelloWorld"⟩ ∧
      (Truthful plainRt 1 t.req ⟨200, ascii "HelloWorld"⟩ h ↔ ¬ Misread 1 t.req h) := by
  have hrun : ((machine plainRt).follow (Machine.init (Server.start (.empty 0)))
      plainSchedule).map (fun p => p.2.threads.map (·.code.answer?)) =
      some [some ⟨200, ascii "ok"⟩, some ⟨200, ascii "HelloWorld"⟩,
        some ⟨417, ascii "redis reply error"⟩] := by decide +kernel
  obtain ⟨h, s, run, hs⟩ := Machine.exists_run_of_follow hrun
  obtain ⟨t, ht, ha⟩ := Machine.answered_of_map (i := 1) hs rfl
  exact ⟨h, s, t, run, ht, ha, statuses_truthful_iff rfl _ run ht ha⟩

/-- A store with one message. -/
def boundDb : Db := (Expiry.Map.empty 0).put lowerToken ⟨ascii "HelloWorld", none⟩

/-- A GET of that message while Redis is loading. -/
def loadingSchedule : List (Label NodeReq Env Answer) :=
  [.spawn ⟨.alg128, .get, lowerToken, []⟩, .act 0 .executed, .act 0 .executed,
    .act 0 (.odd (.error (ascii "LOADING"))), .act 0 .executed]

/-- The reply an event records. -/
def replyOf : NodeEvent → Option Reply
  | .op _ _ (.redisCommand _) v _ _ => v
  | _ => none

/-- It is answered 404, although the token is bound. -/
theorem refused_get_notFound :
    ∃ h s t, (machine plainRt).Run (Machine.init (Server.start boundDb)) h s ∧
      s.threads[0]? = some t ∧ t.code = .done notFound ∧
      (s.shared.db.get lowerToken).map (·.val) = some (ascii "HelloWorld") ∧
      ¬ Truthful plainRt 0 t.req notFound h := by
  have hrun : ((machine plainRt).follow (Machine.init (Server.start boundDb)) loadingSchedule).map
      (fun p => (p.2.threads.map (fun t => (t.req.method, t.code.answer?)), p.1.map replyOf,
        (p.2.shared.db.get lowerToken).map (·.val))) =
      some ([(.get, some notFound)], [some (.error (ascii "LOADING"))],
        some (ascii "HelloWorld")) := by decide +kernel
  obtain ⟨h, s, run, hs⟩ := Machine.exists_run_of_follow hrun
  simp only [Prod.mk.injEq] at hs
  obtain ⟨hthreads, hreplies, hdb⟩ := hs
  obtain ⟨t, ht⟩ : ∃ t, s.threads = [t] := by
    rw [← List.length_eq_one_iff]
    simpa using congrArg List.length hthreads
  rw [ht] at hthreads
  simp only [List.map_cons, List.map_nil, List.cons.injEq, Prod.mk.injEq, and_true] at hthreads
  obtain ⟨hm, ha⟩ := hthreads
  refine ⟨h, s, t, run, by rw [ht]; rfl, Prog.answer?_eq_some.mp ha, hdb, fun H => ?_⟩
  -- the only reply of the run is not nil
  obtain ⟨k, pre, post, -, hev, -⟩ := H.absent hm rfl
  have hreply := List.mem_map_of_mem (f := replyOf) hev
  rw [hreplies] at hreply
  simp [replyOf] at hreply

end Status

end Webstore
