/-
  Webstore.Node.Immutable

  Immutable messages.  With `immutable` set every SET carries NX, and that is
  enough whatever Redis does to the commands: an entry stays as it is, with
  its deadline, until the deadline passes or a burning GET deletes it; only
  one POST in that time is told that it was stored; every GET that finds it
  returns it; and a POST that is told neither 200 nor 503 has changed nothing.
-/
import Webstore.Node.Rule

namespace Webstore

open Webstore.Libc Webstore.Sched

namespace Immutable

/-- A SET of `k` that was answered OK. -/
def stored (k : Bytes) : NodeEvent → Bool
  | .op _ _ (.redisCommand (.set k' _ _ _)) (some (.status str)) _ _ =>
      k' == k && str.take 2 == ascii "OK"
  | _ => false

/-- What a GET of `k` was answered, when it was answered with a string. -/
def found (k : Bytes) : NodeEvent → Option Bytes
  | .op _ _ (.redisCommand (.get k')) (some (.string str)) _ _ => if k' = k then some str else none
  | _ => none

/-- The deadline of `e` has passed. -/
def Expired (e : Expiry.Entry Bytes) : NodeEvent → Prop
  | .env (.tick _) _ post => ∃ t, e.deadline = some t ∧ t ≤ post.db.now
  | _ => False

/-- A DEL of `k` by a GET, which only a burning server issues. -/
def Burnt (rt : Wsrt) (k : Bytes) : NodeEvent → Prop
  | .op _ r (.redisCommand (.del k')) _ _ _ => rt.bar = true ∧ r.method = .get ∧ k' = k
  | _ => False

/-- What one event does to the store. -/
structure Keeps (rt : Wsrt) (ev : NodeEvent) : Prop where
  stable : ∀ k e, ev.pre.db.get k = some e → ev.post.db.get k = some e ∨
    (ev.post.db.get k = none ∧ (Expired e ev ∨ Burnt rt k ev))
  created : ∀ k, stored k ev = true →
    ev.pre.db.get k = none ∧ (ev.post.db.get k).isSome = true
  read : ∀ k str, found k ev = some str → ∃ e, ev.pre.db.get k = some e ∧ str = e.val

theorem stored_set {i : Nat} {r : NodeReq} {k v : Bytes} {ex : Option Nat} {nx : Bool}
    {reply : Option Reply} {pre post : Server} {k' : Bytes}
    (h : stored k' (commandEvent i r (.set k v ex nx) reply pre post) = true) :
    k = k' ∧ ∃ str, reply = some (.status str) := by
  rcases reply with - | (str | - | str | n | str) <;> simp [stored] at h
  exact ⟨h.1, str, rfl⟩

theorem found_get {i : Nat} {r : NodeReq} {k : Bytes} {reply : Option Reply} {pre post : Server}
    {k' str : Bytes} (h : found k' (commandEvent i r (.get k) reply pre post) = some str) :
    k = k' ∧ reply = some (.string str) := by
  rcases reply with - | (str' | - | str' | n | str') <;> simp [found] at h
  exact ⟨h.1, by rw [h.2]⟩

/-! ## One event at a time -/

/-- Time takes what has expired and leaves the rest. -/
theorem keeps_env {rt : Wsrt} {P : Policy} {e : Env} {s s' : Server}
    (h : Server.env P e s = some s') : Keeps rt (.env e s s') where
  stable := by
    intro k en hk
    cases e with
    | tick d =>
        cases h
        -- an entry goes only when its time has come
        cases hd : (s.db.tick d).get k with
        | none => exact .inr ⟨hd, .inl (Expiry.Map.deadline_of_get_tick_eq_none hk hd)⟩
        | some en' =>
            obtain rfl := Option.some.inj ((Expiry.Map.get_of_get_tick hd).symm.trans hk)
            exact .inl hd
    | signal =>
        simp only [Server.env, Option.ite_none_right_eq_some, Option.some.injEq] at h
        obtain ⟨-, rfl⟩ := h
        exact .inl hk
  created := nofun
  read := nofun

/-- A SET with NX leaves what is there. -/
theorem execute_setNx_of_some {db : Db} {k v : Bytes} {ex : Option Nat} {k' : Bytes}
    {e : Expiry.Entry Bytes} (h : db.get k' = some e) :
    (execute db (.set k v ex true)).2.get k' = some e := by
  by_cases hk : k' = k
  · subst hk
    rcases execute_set_cases db k' v ex true with ⟨-, msg, hx⟩ | ⟨-, -, -, hx⟩ | ⟨-, hn, hx⟩
    · rw [hx]
      exact h
    · rw [hx]
      exact h
    · rw [hn rfl] at h
      cases h
  · rw [(execute_frame db (.set k v ex true)).2 k' hk]
    exact h

/-- A SET that is answered OK has created its key. -/
theorem execute_setNx_status {db : Db} {k v : Bytes} {ex : Option Nat} {str : Bytes}
    (h : (execute db (.set k v ex true)).1 = .status str) :
    db.get k = none ∧ ((execute db (.set k v ex true)).2.get k).isSome = true := by
  rcases execute_set_cases db k v ex true with ⟨-, msg, hx⟩ | ⟨-, -, -, hx⟩ | ⟨hex, hn, hx⟩
  · rw [hx] at h
    cases h
  · rw [hx] at h
    cases h
  · rw [hx, Expiry.Map.get_put_self _ _ (live_deadlineAfter hex)]
    exact ⟨hn rfl, rfl⟩

/-- With NX, a SET leaves what is there. -/
theorem keeps_set {rt : Wsrt} (hi : rt.immutable = true) (i : Nat) (r : NodeReq) (k v : Bytes)
    (s : Server) (out : Outcome) :
    Keeps rt (commandEvent i r (storeCommand rt k v) (s.command (storeCommand rt k v) out).1 s
      (s.command (storeCommand rt k v) out).2) where
  stable := by
    intro k' e he
    refine .inl (Server.command_db (Q := fun db => db.get k' = some e) out he ?_)
    unfold storeCommand
    rw [hi]
    exact execute_setNx_of_some he
  created := by
    intro k' hk'
    unfold storeCommand at hk'
    rw [hi] at hk'
    obtain ⟨rfl, str, hreply⟩ := stored_set hk'
    -- a status reply is no refusal: the SET was executed, and found nothing there
    rcases Server.command_reply hreply with ⟨msg, hmsg⟩ | ⟨hs, hdb⟩
    · cases hmsg
    · obtain ⟨hnone, hsome⟩ := execute_setNx_status hs.symm
      refine ⟨hnone, ?_⟩
      unfold storeCommand
      rw [Event.post_op, hi, hdb]
      exact hsome
  read := nofun

/-- A GET changes nothing. -/
theorem keeps_get (rt : Wsrt) (i : Nat) (r : NodeReq) (k : Bytes) (s : Server) (out : Outcome) :
    Keeps rt (commandEvent i r (.get k) (s.command (.get k) out).1 s
      (s.command (.get k) out).2) where
  stable := by
    intro k' e he
    refine .inl (Server.command_db (Q := fun db => db.get k' = some e) out he ?_)
    rw [execute_get]
    exact he
  created := nofun
  read := by
    intro k' str hf
    obtain ⟨rfl, hreply⟩ := found_get hf
    rcases Server.command_reply hreply with ⟨msg, hmsg⟩ | ⟨hs, -⟩
    · cases hmsg
    · cases hk : s.db.get k with
      | none =>
          rw [execute_get_none hk] at hs
          cases hs
      | some e =>
          rw [execute_get_some hk] at hs
          cases hs
          exact ⟨e, hk, rfl⟩

/-- With BAR, a GET burns what it asks for. -/
theorem keeps_del {rt : Wsrt} (hbar : rt.bar = true) (i : Nat) {r : NodeReq} (hr : r.method = .get)
    (k : Bytes) (s : Server) (out : Outcome) :
    Keeps rt (commandEvent i r (.del k) (s.command (.del k) out).1 s
      (s.command (.del k) out).2) where
  stable := by
    intro k' e he
    refine Server.command_db (Q := fun db => db.get k' = some e ∨ (db.get k' = none ∧
      (Expired e _ ∨ Burnt rt k' _))) out (.inl he) ?_
    rw [execute_del]
    by_cases hk : k' = k
    · subst hk
      exact .inr ⟨Expiry.Map.get_erase_self _ _, .inr ⟨hbar, hr, rfl⟩⟩
    · rw [Expiry.Map.get_erase_ne _ hk]
      exact .inl he
  created := nofun
  read := nofun

theorem keeps_stop (rt : Wsrt) (i : Nat) (r : NodeReq) (s : Server) :
    Keeps rt (.op (S := Rai) i r .handleRedisError () s s.stop) where
  stable _ _ he := .inl he
  created := nofun
  read := nofun

/-- A POST that Redis answers, but not with OK, changes nothing. -/
theorem set_untouched {s : Server} {k v : Bytes} {ex : Option Nat} {nx : Bool} {out : Outcome}
    {reply : Reply} (h : (s.command (.set k v ex nx) out).1 = some reply)
    (hz : postError reply ≠ 0) : (s.command (.set k v ex nx) out).2.db = s.db := by
  rcases s.command_cases (.set k v ex nx) out with
    ⟨-, hx⟩ | ⟨-, hx⟩ | ⟨-, msg, hx⟩ | ⟨-, db', -, hx⟩
  · rw [hx]
  · rw [hx] at h ⊢
    rcases execute_set_cases s.db k v ex nx with ⟨-, msg, hs⟩ | ⟨-, -, -, hs⟩ | ⟨-, -, hs⟩
    · rw [hs]
    · rw [hs]
    · rw [hs] at h
      cases h
      exact absurd rfl hz
  · rw [hx]
  · rw [hx] at h
    cases h

/-! ## The outline -/

/-- What the answer of thread `i` says about its own commands. -/
structure Answered (i : Nat) (r : NodeReq) (a : Response) (h : List NodeEvent) : Prop where
  returned : ∀ ev ∈ h, ev.tid = some i → ∀ k str, found k ev = some str →
    a = ⟨httpOk, cString str⟩
  got : r.method = .get → a.code = httpOk → ∃ ev ∈ h, ev.tid = some i ∧
    ∃ k str, r.token = some k ∧ found k ev = some str
  posted : r.method = .post → a.code = httpOk → ∃ ev ∈ h, ev.tid = some i ∧
    ∃ k, r.token = some k ∧ stored k ev = true
  untouched : r.method = .post → a.code ≠ httpOk → a.code ≠ httpServiceUnavailable →
    ∀ ev ∈ h, ev.tid = some i → ev.post.db = ev.pre.db

/-- Every event so far has kept the store. -/
def Kept (rt : Wsrt) (w : NodeWorld) : Prop := ∀ ev ∈ w.hist, Keeps rt ev

theorem Kept.push {rt : Wsrt} {w : NodeWorld} (h : Kept rt w) {ev : NodeEvent}
    (hev : Keeps rt ev) : Kept rt (w.push ev) := by
  intro ev' hm
  rcases World.mem_push.mp hm with hm | rfl
  · exact h ev' hm
  · exact hev

/-- A GET that has read `str` and is about to delete it. -/
structure Burning (rt : Wsrt) (i : Nat) (r : NodeReq) (k str : Bytes) (w : NodeWorld) : Prop where
  kept : Kept rt w
  burns : rt.bar = true
  call : r.call = .ok (.get k)
  seen : ∃ ev ∈ w.hist, ev.tid = some i ∧ found k ev = some str
  only : ∀ ev ∈ w.hist, ev.tid = some i → ∀ k' str', found k' ev = some str' → str' = str

/-- A thread that got no reply. -/
structure Failing (rt : Wsrt) (i : Nat) (w : NodeWorld) : Prop where
  kept : Kept rt w
  nothing : ∀ ev ∈ w.hist, ev.tid = some i → ∀ k, found k ev = none

/-- The outline of the nodes of an immutable store. -/
def outline (rt : Wsrt) : NodeOutline where
  Always := Kept rt
  Rest := Kept rt
  Burning := Burning rt
  Failing i _ := Failing rt i
  Post i r a w := Answered i r a w.hist

/-- What others do does not change how a request has been answered. -/
theorem Answered.push {i : Nat} {r : NodeReq} {a : Response} {w : NodeWorld}
    (h : Answered i r a w.hist) {ev : NodeEvent} (hev : ev.tid ≠ some i) :
    Answered i r a (w.push ev).hist where
  returned ev' hm htid := h.returned ev' (World.mem_of_mem_push hm htid hev) htid
  got hr ha := by
    obtain ⟨ev', hm, hown⟩ := h.got hr ha
    exact ⟨ev', World.mem_push_of_mem hm ev, hown⟩
  posted hr ha := by
    obtain ⟨ev', hm, hown⟩ := h.posted hr ha
    exact ⟨ev', World.mem_push_of_mem hm ev, hown⟩
  untouched hr ha hb ev' hm htid :=
    h.untouched hr ha hb ev' (World.mem_of_mem_push hm htid hev) htid

/-- An answer without a command is no success. -/
theorem answered_fresh {i : Nat} {r : NodeReq} {a : Response} {w : NodeWorld} (hf : w.Fresh i)
    (ha : a.code ≠ httpOk) : Answered i r a w.hist where
  returned ev hm htid := absurd htid (hf ev hm)
  got _ h := absurd h ha
  posted _ h := absurd h ha
  untouched _ _ _ ev hm htid := absurd htid (hf ev hm)

theorem failing_push {rt : Wsrt} {w : NodeWorld} {i : Nat} {r : NodeReq} {c : Cmd} {post : Server}
    (hw : Kept rt w) (hf : w.Fresh i) (hk : Keeps rt (commandEvent i r c none w.shared post)) :
    Failing rt i (afterCommand w i r c (none, post)) := by
  refine ⟨hw.push hk, fun ev hm htid k => ?_⟩
  rw [hf.eq_of_mem_push hm htid]
  cases c <;> rfl

/-- A GET that finds a value answers with it. -/
theorem answered_found {w : NodeWorld} {i : Nat} {r : NodeReq} {k : Bytes}
    (hc : r.call = .ok (.get k)) (hf : w.Fresh i) (str : Bytes) (post : Server) :
    Answered i r ⟨httpOk, cString str⟩
      (afterCommand w i r (.get k) (some (.string str), post)).hist where
  returned ev hm htid k' str' hs := by
    rw [hf.eq_of_mem_push hm htid] at hs
    cases (found_get hs).2
    rfl
  got _ _ := ⟨_, World.mem_push_self _ _, rfl, k, str,
    (NodeReq.call_eq_get hc).2, by simp [found]⟩
  posted hr := by
    rw [(NodeReq.call_eq_get hc).1] at hr
    cases hr
  untouched hr := by
    rw [(NodeReq.call_eq_get hc).1] at hr
    cases hr

/-- A GET that finds nothing answers 404. -/
theorem answered_missing {w : NodeWorld} {i : Nat} {r : NodeReq} {k : Bytes}
    (hc : r.call = .ok (.get k)) (hf : w.Fresh i) {reply : Reply}
    (hn : ∀ str, reply ≠ .string str) (post : Server) :
    Answered i r notFound (afterCommand w i r (.get k) (some reply, post)).hist where
  returned ev hm htid k' str hs := by
    rw [hf.eq_of_mem_push hm htid] at hs
    exact absurd (Option.some.inj (found_get hs).2) (hn str)
  got _ ha := by cases ha
  posted _ ha := by cases ha
  untouched hr := by
    rw [(NodeReq.call_eq_get hc).1] at hr
    cases hr

/-- A GET keeps what is there, and answers with it unless it goes on to burn it. -/
theorem get_step {rt : Wsrt} {i : Nat} {r : NodeReq} {k : Bytes} {w : NodeWorld} {out : Outcome}
    (hc : r.call = .ok (.get k)) (hw : Kept rt w) (hf : w.Fresh i) :
    (outline rt).AfterGet rt i r k (afterCommand w i r (.get k) (w.shared.command (.get k) out))
      (w.shared.command (.get k) out).1 := by
  have hkeeps := keeps_get rt i r k w.shared out
  generalize w.shared.command (.get k) out = vs at hkeeps ⊢
  obtain ⟨v, post⟩ := vs
  -- only a string is a find; all the rest is answered 404
  rcases v with - | (str | - | str | n | str)
  · exact failing_push hw hf hkeeps
  · simp only [NodeOutline.AfterGet]
    split
    · rename_i hbar
      refine ⟨hw.push hkeeps, hbar, hc, ?_, ?_⟩
      · exact ⟨_, World.mem_push_self _ _, rfl, by simp [found]⟩
      · intro ev hm htid k' str' hs
        rw [hf.eq_of_mem_push hm htid] at hs
        cases (found_get hs).2
        rfl
    · exact ⟨hw.push hkeeps, answered_found hc hf str post⟩
  · exact ⟨hw.push hkeeps, answered_missing hc hf (by simp) post⟩
  · exact ⟨hw.push hkeeps, answered_missing hc hf (by simp) post⟩
  · exact ⟨hw.push hkeeps, answered_missing hc hf (by simp) post⟩
  · exact ⟨hw.push hkeeps, answered_missing hc hf (by simp) post⟩

/-- A POST stores under a free key, or is told that there is something. -/
theorem set_step {rt : Wsrt} (hi : rt.immutable = true) {i : Nat} {r : NodeReq} {k v : Bytes}
    {w : NodeWorld} {out : Outcome} (hc : r.call = .ok (.put k v)) (hw : Kept rt w)
    (hf : w.Fresh i) :
    (outline rt).AfterSet i r
      (afterCommand w i r (storeCommand rt k v) (w.shared.command (storeCommand rt k v) out))
      (w.shared.command (storeCommand rt k v) out).1 := by
  have hkeeps := keeps_set hi i r k v w.shared out
  obtain ⟨hmethod, htoken, -⟩ := NodeReq.call_eq_put hc
  -- no reply ends in 503, and a reply is read by `do_redis_post`
  cases hv : (w.shared.command (storeCommand rt k v) out).1 with
  | none =>
      rw [hv] at hkeeps
      have := failing_push hw hf hkeeps
      rw [← hv] at this
      exact this
  | some reply =>
      refine ⟨hw.push hkeeps, ?_, ?_, ?_, ?_⟩
      · intro ev hm htid k' str hs
        rw [hf.eq_of_mem_push hm htid] at hs
        cases hs
      · intro hr
        rw [hmethod] at hr
        cases hr
      · intro _ ha
        obtain ⟨str, rfl, hok⟩ := postError_eq_zero ((code_postResponse_postError reply).mp ha)
        refine ⟨_, World.mem_push_self _ _, rfl, k, htoken, ?_⟩
        rw [hv]
        simp [stored, storeCommand, hok]
      · intro _ ha _ ev hm htid
        rw [hf.eq_of_mem_push hm htid]
        exact set_untouched hv fun hz => ha ((code_postResponse_postError reply).mpr hz)

/-- A DEL ends the life of what was read. -/
theorem del_step {rt : Wsrt} {i : Nat} {r : NodeReq} {k str : Bytes} {w : NodeWorld}
    {out : Outcome} (hw : Burning rt i r k str w) :
    Kept rt (afterCommand w i r (.del k) (w.shared.command (.del k) out)) ∧
      Answered i r ⟨httpOk, cString str⟩
        (afterCommand w i r (.del k) (w.shared.command (.del k) out)).hist := by
  obtain ⟨hmethod, htoken⟩ := NodeReq.call_eq_get hw.call
  refine ⟨hw.kept.push (keeps_del hw.burns i hmethod k w.shared out), ?_, ?_, ?_, ?_⟩
  · intro ev hm htid k' str' hs
    rcases World.mem_push.mp hm with hm | rfl
    · rw [hw.only ev hm htid k' str' hs]
    · cases hs
  · intro _ _
    obtain ⟨ev, hm, htid, hs⟩ := hw.seen
    exact ⟨ev, World.mem_push_of_mem hm _, htid, k, str, htoken, hs⟩
  · intro hr
    rw [hmethod] at hr
    cases hr
  · intro hr
    rw [hmethod] at hr
    cases hr

/-- The nodes of an immutable server follow the rule. -/
theorem outline_valid {rt : Wsrt} (hi : rt.immutable = true) (P : Policy) :
    (outline rt).Valid rt P where
  always_of_rest h := h
  always_of_burning h := h.kept
  always_of_failing h := h.kept
  rest_env h he := h.push (keeps_env he)
  burning_env := by
    intro i r k str w e σ' h he
    refine ⟨h.kept.push (keeps_env he), h.burns, h.call, ?_, ?_⟩
    · obtain ⟨ev, hm, hown⟩ := h.seen
      exact ⟨ev, World.mem_push_of_mem hm _, hown⟩
    · exact fun ev hm htid => h.only ev (World.mem_of_mem_push hm htid (by simp)) htid
  failing_env h he := ⟨h.kept.push (keeps_env he),
    fun ev hm htid => h.nothing ev (World.mem_of_mem_push hm htid (by simp)) htid⟩
  post_push h hev := h.push hev
  stopped _ _ _ _ hf := answered_fresh hf (by decide)
  refused hc _ hf := answered_fresh hf (by
    rcases NodeReq.call_error hc with ⟨h, -⟩ | ⟨h, -⟩ <;> rw [h] <;> decide)
  get_step hc hw hf _ := get_step hc hw hf
  set_step hc hw hf _ := set_step hi hc hw hf
  del_step hw _ := del_step hw
  error_step := by
    intro i r w h
    refine ⟨h.kept.push (keeps_stop rt i r w.shared), ?_, ?_, ?_, ?_⟩
    · intro ev hm htid k str hs
      rcases World.mem_push.mp hm with hm | rfl
      · -- nothing was found, so nothing has to be said
        rw [h.nothing ev hm htid k] at hs
        cases hs
      · cases hs
    · exact fun _ ha => by cases ha
    · exact fun _ ha => by cases ha
    · exact fun _ _ hb => absurd rfl hb

/-! ## Lifetimes -/

/-- As long as a key stays in the store its entry stays the same. -/
theorem entry_stays {rt : Wsrt} {life : List NodeEvent} (hkeep : ∀ ev ∈ life, Keeps rt ev)
    {k : Bytes} (hlive : ∀ ev ∈ life, (ev.post.db.get k).isSome = true) {a b : Server}
    (hl : Machine.Linked a life b) {e : Expiry.Entry Bytes} (he : a.db.get k = some e) :
    ∀ ev ∈ life, ev.pre.db.get k = some e ∧ ev.post.db.get k = some e := by
  induction life generalizing a with
  | nil =>
      intro ev hm
      cases hm
  | cons ev₀ life ih =>
      obtain ⟨rfl, hl⟩ := hl
      -- it is still there, so it can neither have expired nor been burnt
      have hpost : ev₀.post.db.get k = some e := by
        rcases (hkeep ev₀ List.mem_cons_self).stable k e he with h | ⟨hnone, -⟩
        · exact h
        · have := hlive ev₀ List.mem_cons_self
          rw [hnone] at this
          cases this
      intro ev hm
      rcases List.mem_cons.mp hm with rfl | hm
      · exact ⟨he, hpost⟩
      · exact ih (fun ev hm => hkeep ev (List.mem_cons_of_mem _ hm))
          (fun ev hm => hlive ev (List.mem_cons_of_mem _ hm)) hl hpost ev hm

/-- A stretch of a history through which `k` is in the store: one entry, at
    most one POST that stored it, and every GET finds that entry. -/
structure Lifetime (s : Sys Rai Server NodeReq Response) (k : Bytes) (life : List NodeEvent)
    (e : Expiry.Entry Bytes) : Prop where
  same : ∀ ev ∈ life, ev.post.db.get k = some e
  once : (life.filter (stored k)).length ≤ 1
  found : ∀ ev ∈ life, ∀ str, found k ev = some str → str = e.val ∧
    ∀ (i : Nat) (t : Thread Rai NodeReq Response) (a : Response), ev.tid = some i →
      s.threads[i]? = some t → t.code = .done a → a = ⟨httpOk, cString e.val⟩

/-- Immutability of a run: what is promised of every entry, and what the
    answers say about the commands behind them. -/
structure Holds (rt : Wsrt) (h : List NodeEvent) (s : Sys Rai Server NodeReq Response) :
    Prop where
  stable : ∀ ev ∈ h, ∀ k e, ev.pre.db.get k = some e → ev.post.db.get k = some e ∨
    (ev.post.db.get k = none ∧ (Expired e ev ∨ Burnt rt k ev))
  created : ∀ ev ∈ h, ∀ k, stored k ev = true →
    ev.pre.db.get k = none ∧ (ev.post.db.get k).isSome = true
  lifetime : ∀ k past life rest, h = past ++ life ++ rest → life ≠ [] →
    (∀ ev ∈ life, (ev.post.db.get k).isSome = true) → ∃ e, Lifetime s k life e
  answered : ∀ (i : Nat) (t : Thread Rai NodeReq Response) (a : Response),
    s.threads[i]? = some t → t.code = .done a → Answered i t.req a h

/-- While a key is taken, there is one entry under it, and every GET is given its
    value. -/
theorem exists_lifetime {rt : Wsrt} {s : Sys Rai Server NodeReq Response} {k : Bytes}
    {life : List NodeEvent} (hne : life ≠ []) (hkeep : ∀ ev ∈ life, Keeps rt ev)
    (hlive : ∀ ev ∈ life, (ev.post.db.get k).isSome = true) {a b : Server}
    (hl : Machine.Linked a life b)
    (hans : ∀ ev ∈ life, ∀ str, found k ev = some str →
      ∀ (i : Nat) (t : Thread Rai NodeReq Response) (a : Response), ev.tid = some i →
        s.threads[i]? = some t → t.code = .done a → a = ⟨httpOk, cString str⟩) :
    ∃ e, Lifetime s k life e := by
  cases life with
  | nil => exact absurd rfl hne
  | cons ev₀ life =>
      obtain ⟨rfl, hl⟩ := hl
      obtain ⟨e, he⟩ := Option.isSome_iff_exists.mp (hlive ev₀ List.mem_cons_self)
      -- the entry of this lifetime is the one behind its first event
      have hlater := entry_stays (fun ev hm => hkeep ev (List.mem_cons_of_mem _ hm))
        (fun ev hm => hlive ev (List.mem_cons_of_mem _ hm)) hl he
      have hread : ∀ ev ∈ ev₀ :: life, ∀ str, found k ev = some str → str = e.val := by
        intro ev hm str hs
        obtain ⟨e', he', rfl⟩ := (hkeep ev hm).read k str hs
        rcases List.mem_cons.mp hm with rfl | hm
        · rcases (hkeep _ List.mem_cons_self).stable k e' he' with h | ⟨hnone, -⟩
          · rw [he] at h
            cases h
            rfl
          · rw [hnone] at he
            cases he
        · rw [(hlater ev hm).1] at he'
          cases he'
          rfl
      refine ⟨e, ?_, ?_, ?_⟩
      · intro ev hm
        rcases List.mem_cons.mp hm with rfl | hm
        · exact he
        · exact (hlater ev hm).2
      · -- only the first event can have found the key absent
        have hnone : life.filter (stored k) = [] := by
          refine List.filter_eq_nil_iff.mpr fun ev hm hs => ?_
          have := ((hkeep ev (List.mem_cons_of_mem _ hm)).created k hs).1
          rw [(hlater ev hm).1] at this
          cases this
        rw [List.filter_cons, hnone]
        split <;> simp
      · intro ev hm str hs
        refine ⟨hread ev hm str hs, fun i t a htid ht ha => ?_⟩
        rw [← hread ev hm str hs]
        exact hans ev hm str hs i t a htid ht ha

/-- Immutability holds in every run, whatever Redis does to the commands. -/
theorem immutable_holds {rt : Wsrt} (hi : rt.immutable = true)
    (db₀ : Db) {h : List NodeEvent} {s : Sys Rai Server NodeReq Response}
    (run : (nodeMachine .anything rt).Run (Machine.init (Server.start db₀)) h s) :
    Holds rt h s := by
  have V := outline_valid hi .anything
  have h₀ : (outline rt).Rest ⟨[], Server.start db₀⟩ := by
    intro ev hev
    cases hev
  have hkept : ∀ ev ∈ h, Keeps rt ev := V.always h₀ run
  have hans : ∀ (i : Nat) (t : Thread Rai NodeReq Response) (a : Response),
      s.threads[i]? = some t → t.code = .done a → Answered i t.req a h :=
    fun i t a ht ha => V.answered h₀ run ht ha
  refine ⟨fun ev hev => (hkept ev hev).stable, fun ev hev => (hkept ev hev).created, ?_, hans⟩
  rintro k past life rest rfl hne hlive
  -- a lifetime is a stretch of the history; the state before it links to it
  have hsub : ∀ ev ∈ life, ev ∈ past ++ life ++ rest := fun ev hev => by simp [hev]
  have hlink := raiMachine_linked run
  obtain ⟨_, hl, -⟩ := Machine.linked_append.mp hlink
  obtain ⟨_, -, hl⟩ := Machine.linked_append.mp hl
  refine exists_lifetime hne (fun ev hev => hkept ev (hsub ev hev)) hlive hl ?_
  intro ev hev str hs i t a htid ht ha
  exact (hans i t a ht ha).returned ev (hsub ev hev) htid k str hs

/-- An immutable store that burns and expires. -/
def immutableRt : Wsrt := ⟨true, 0, 0, 0, 60, true, true⟩

/-- A POST whose reply got lost after it took effect, with another POST and a
    GET waiting. -/
def lostSchedule : List (Label NodeReq Env Outcome) :=
  [.spawn ⟨.alg128, .post, lowerToken, ascii "HelloWorld"⟩,
    .spawn ⟨.alg128, .post, upperToken, ascii "12345"⟩,
    .spawn ⟨.alg128, .post, upperToken, ascii "67890"⟩, .spawn ⟨.alg128, .get, upperToken, []⟩,
    .act 0 .answered, .act 1 .answered, .act 2 .answered, .act 3 .answered,
    .act 0 .answered, .act 0 .answered, .act 0 .answered, .env (.tick 1000),
    .act 1 .answered, .act 1 (.refused (ascii "OOM")), .act 1 .answered,
    .act 2 .answered, .act 2 (.lost true), .act 2 .answered, .act 2 .answered,
    .act 3 .answered, .act 3 .answered, .act 3 .answered, .act 3 .answered]

theorem immutable_holds_lost :
    ∃ h s, (nodeMachine .anything immutableRt).Run (Machine.init (Server.start (.empty 0))) h s ∧
      s.threads.map (·.code.answer?) =
        [some ⟨200, ascii "ok"⟩, some ⟨417, ascii "redis reply error"⟩,
          some ⟨503, ascii "service unavailable"⟩, some ⟨503, ascii "service unavailable"⟩] ∧
      Holds immutableRt h s := by
  have hrun : ((nodeMachine .anything immutableRt).follow
      (Machine.init (Server.start (.empty 0))) lostSchedule).map
        (fun p => p.2.threads.map (·.code.answer?)) =
      some [some ⟨200, ascii "ok"⟩, some ⟨417, ascii "redis reply error"⟩,
        some ⟨503, ascii "service unavailable"⟩, some ⟨503, ascii "service unavailable"⟩] := by
    decide +kernel
  obtain ⟨h, s, run, hs⟩ := Machine.exists_run_of_follow hrun
  exact ⟨h, s, run, hs, immutable_holds rfl _ run⟩

end Immutable

end Webstore
