/-
  Webstore.Node.Refine

  The store nodes refine a store on an expiring map.  While Redis answers
  every command, what concurrent requests are told and what they leave in
  Redis is what a store that handles them one at a time would say and keep,
  each request at the moment of its first command.
-/
import Webstore.Node.Rule

namespace Webstore

open Webstore.Libc Webstore.Sched

/-- The store a server is configured to be. -/
def Wsrt.settings (rt : Wsrt) : Expiry.Settings where
  ttl := if rt.expiration = 0 then none else some (1000 * rt.expiration)
  writeOnce := rt.immutable
  burn := rt.bar

/-- How an answer of the store is put to the client. -/
def answerResponse : Expiry.Answer Bytes → Response
  | .found v => ⟨httpOk, v⟩
  | .missing => notFound
  | .stored => postResponse 0
  | .kept => postResponse 304

namespace Refine

/-- The step of the store that one more event stands for: the first command
    of a thread is its call, its later ones are nothing. -/
def stepOf (past : List NodeEvent) : NodeEvent → List (Expiry.Step Nat Bytes Bytes)
  | .op i r (.redisCommand _) _ _ _ =>
      if past.all fun ev => ev.tid ≠ some i then
        match r.call with
        | .ok c => [.call i c]
        | .error _ => []
      else []
  | .env (.tick d) _ _ => [.tick d]
  | _ => []

/-- `linearize`, the latest event first. -/
def linearizeRev : List NodeEvent → List (Expiry.Step Nat Bytes Bytes)
  | [] => []
  | ev :: past => linearizeRev past ++ stepOf past ev

/-- The calls of a history in the order of their first commands, and the
    passing of time between them. -/
def linearize (h : List NodeEvent) : List (Expiry.Step Nat Bytes Bytes) := linearizeRev h.reverse

theorem linearize_concat (h : List NodeEvent) (ev : NodeEvent) :
    linearize (h ++ [ev]) = linearize h ++ stepOf h.reverse ev := by
  simp [linearize, linearizeRev]

/-- The entries and the answers of the store that handles the calls of `h`. -/
def spec (rt : Wsrt) (db₀ : Db) (h : List NodeEvent) :
    Expiry.Map Bytes Bytes × List (Nat × Expiry.Answer Bytes) :=
  rt.settings.run db₀ (linearize h)

/-- The answers thread `i` got from the store. -/
def answersTo (i : Nat) (answers : List (Nat × Expiry.Answer Bytes)) : List (Expiry.Answer Bytes) :=
  (answers.filter fun p => p.1 == i).map Prod.snd

theorem answersTo_concat_self (i : Nat) (answers : List (Nat × Expiry.Answer Bytes))
    (a : Expiry.Answer Bytes) : answersTo i (answers ++ [(i, a)]) = answersTo i answers ++ [a] := by
  simp [answersTo]

theorem answersTo_concat_ne {i j : Nat} (h : j ≠ i) (answers : List (Nat × Expiry.Answer Bytes))
    (a : Expiry.Answer Bytes) : answersTo i (answers ++ [(j, a)]) = answersTo i answers := by
  simp [answersTo, h]

variable (rt : Wsrt) (db₀ : Db)

theorem spec_tick (h : List NodeEvent) (d : Nat) (pre post : Server) :
    spec rt db₀ (h ++ [.env (.tick d) pre post]) =
      ((spec rt db₀ h).1.tick d, (spec rt db₀ h).2) := by
  simp [spec, linearize_concat, stepOf, Expiry.Settings.run_concat, Expiry.Settings.play]

/-- The first command of a thread is its call. -/
theorem spec_first {h : List NodeEvent} {i : Nat} (hf : ∀ ev ∈ h, ev.tid ≠ some i) {r : NodeReq}
    {c : Expiry.Call Bytes Bytes} (hc : r.call = .ok c) (o : Cmd) (v : Option Reply)
    (pre post : Server) :
    spec rt db₀ (h ++ [.op i r (.redisCommand o) v pre post]) =
      ((rt.settings.serve (spec rt db₀ h).1 c).2,
        (spec rt db₀ h).2 ++ [(i, (rt.settings.serve (spec rt db₀ h).1 c).1)]) := by
  have hall : (h.reverse.all fun ev => ev.tid ≠ some i) = true := by
    simpa using hf
  simp only [spec, linearize_concat, stepOf, hall, if_true, hc, Expiry.Settings.run_concat,
    Expiry.Settings.play]

/-- Later commands of a thread are nothing to the store. -/
theorem spec_later {h : List NodeEvent} {i : Nat} (hf : ∃ ev ∈ h, ev.tid = some i) (r : NodeReq)
    (o : RaiOp) (v : RaiOp.Ret o) (pre post : Server) :
    spec rt db₀ (h ++ [.op i r o v pre post]) = spec rt db₀ h := by
  have hall : ¬ (h.reverse.all fun ev => ev.tid ≠ some i) = true := by
    simpa using hf
  cases o with
  | redisCommand c => simp only [spec, linearize_concat, stepOf, if_neg hall, List.append_nil]
  | _ => simp [spec, linearize_concat, stepOf]

/-- Only the caller gets an answer. -/
theorem answersTo_concat_other {h : List NodeEvent} {ev : NodeEvent} {i : Nat}
    (hev : ev.tid ≠ some i) :
    answersTo i (spec rt db₀ (h ++ [ev])).2 = answersTo i (spec rt db₀ h).2 := by
  cases ev with
  | env e pre post =>
      cases e with
      | tick d => rw [spec_tick]
      | signal => simp [spec, linearize_concat, stepOf]
  | op j r o v pre post =>
      have hj : j ≠ i := by simpa using hev
      cases o with
      | redisCommand c =>
          -- only the first command of a thread is a call on the store
          by_cases hf : ∃ ev ∈ h, ev.tid = some j
          · rw [spec_later rt db₀ hf]
          · cases hc : r.call with
            | error resp => simp [spec, linearize_concat, stepOf, hc]
            | ok call =>
                rw [spec_first rt db₀ (fun ev hm ht => hf ⟨ev, hm, ht⟩) hc,
                  answersTo_concat_ne hj]
      | _ => simp [spec, linearize_concat, stepOf]

theorem answersTo_eq_nil {w : NodeWorld} {i : Nat} (hf : w.Fresh i) :
    answersTo i (spec rt db₀ w.hist).2 = [] := by
  refine World.Fresh.induct (P := fun h => answersTo i (spec rt db₀ h).2 = []) rfl ?_ hf
  intro h ev ih hev
  rw [answersTo_concat_other rt db₀ hev]
  exact ih

variable {rt db₀}

/-! ## The outline -/

/-- Nothing has failed, and what is stored are C strings. -/
structure Sound (w : NodeWorld) : Prop where
  connected : w.shared.broken = false
  running : w.shared.shutdown = false
  strings : ∀ k e, w.shared.db.get k = some e → NulFree e.val

/-- Redis holds what the store holds. -/
structure AtRest (rt : Wsrt) (db₀ : Db) (w : NodeWorld) : Prop extends Sound w where
  agree : w.shared.db = (spec rt db₀ w.hist).1

/-- Thread `i` has been answered as the store answers it. -/
def Answered (rt : Wsrt) (db₀ : Db) (i : Nat) (r : NodeReq) (a : Response) (w : NodeWorld) : Prop :=
  match r.call with
  | .error resp => a = resp ∧ w.Fresh i
  | .ok _ => ∃ ans, answersTo i (spec rt db₀ w.hist).2 = [ans] ∧ a = answerResponse ans

/-- A GET that has read `str` and is about to delete it: to the store it is
    over. -/
structure Burning (rt : Wsrt) (db₀ : Db) (i : Nat) (r : NodeReq) (k str : Bytes)
    (w : NodeWorld) : Prop extends Sound w where
  call : r.call = .ok (.get k)
  erased : (spec rt db₀ w.hist).1 = w.shared.db.erase k
  seen : ∃ ev ∈ w.hist, ev.tid = some i
  answer : answersTo i (spec rt db₀ w.hist).2 = [.found (cString str)]

/-- The outline of the store nodes while nothing fails. -/
def outline (rt : Wsrt) (db₀ : Db) : NodeOutline where
  Always := Sound
  Rest := AtRest rt db₀
  Burning := Burning rt db₀
  Failing _ _ _ := False
  Post := Answered rt db₀

/-! ## One command at a time -/

/-- What is left is still strings. -/
theorem strings_erase {db : Db} (h : ∀ k e, db.get k = some e → NulFree e.val) (k : Bytes) :
    ∀ k' e, (db.erase k).get k' = some e → NulFree e.val := by
  intro k' e he
  by_cases hk : k' = k
  · subst hk
    simp at he
  · rw [Expiry.Map.get_erase_ne _ hk] at he
    exact h k' e he

/-- And so is what a string is added to. -/
theorem strings_put {db : Db} (h : ∀ k e, db.get k = some e → NulFree e.val) (k : Bytes)
    {e₀ : Expiry.Entry Bytes} (h₀ : NulFree e₀.val) :
    ∀ k' e, (db.put k e₀).get k' = some e → NulFree e.val := by
  intro k' e he
  by_cases hk : k' = k
  · subst hk
    rw [Expiry.Map.eq_of_get_put_self he]
    exact h₀
  · rw [Expiry.Map.get_put_ne _ _ hk] at he
    exact h k' e he

/-- `SET` does what the store does with a new value, and the answer says so. -/
theorem execute_store (rt : Wsrt) {db : Db} (k : Bytes) {v : Bytes} (hv : NulFree v)
    (hs : ∀ k e, db.get k = some e → NulFree e.val) :
    (execute db (storeCommand rt k v)).2 = (rt.settings.serve db (.put k v)).2 ∧
      postResponse (postError (execute db (storeCommand rt k v)).1) =
        answerResponse (rt.settings.serve db (.put k v)).1 ∧
      ∀ k' e, (execute db (storeCommand rt k v)).2.get k' = some e → NulFree e.val := by
  have hdead : deadlineAfter db.now (if rt.expiration = 0 then none else some rt.expiration) =
      rt.settings.ttl.map fun t => db.now + t := by
    unfold Wsrt.settings
    split <;> rfl
  unfold storeCommand
  rcases execute_set_cases db k v (if rt.expiration = 0 then none else some rt.expiration)
    rt.immutable with ⟨h₀, -⟩ | ⟨-, hnx, hk, hx⟩ | ⟨-, hk, hx⟩
  -- an expiration of 0 is sent as no EX at all
  · split at h₀
    · cases h₀
    · rename_i hne
      exact absurd (Option.some.inj h₀) hne
  · rw [hx, rt.settings.serve_put_kept v hnx hk]
    exact ⟨rfl, rfl, hs⟩
  · rw [hx, hdead, rt.settings.serve_put_stored v hk]
    exact ⟨rfl, rfl, strings_put hs k hv⟩

theorem Sound.tick {w : NodeWorld} (h : Sound w) (d : Nat) :
    Sound (w.push (.env (.tick d) w.shared { w.shared with db := w.shared.db.tick d })) :=
  ⟨h.connected, h.running, fun k e he => h.strings k e (Expiry.Map.get_of_get_tick he)⟩

theorem AtRest.tick {w : NodeWorld} (h : AtRest rt db₀ w) (d : Nat) :
    AtRest rt db₀ (w.push (.env (.tick d) w.shared { w.shared with db := w.shared.db.tick d })) :=
  ⟨h.toSound.tick d, by rw [World.push_hist, spec_tick, ← h.agree]; rfl⟩

/-- What others call does not change an answer. -/
theorem Answered.push {i : Nat} {r : NodeReq} {a : Response} {w : NodeWorld}
    (h : Answered rt db₀ i r a w) {ev : NodeEvent} (hev : ev.tid ≠ some i) :
    Answered rt db₀ i r a (w.push ev) := by
  unfold Answered at h ⊢
  split
  · rename_i hc
    rw [hc] at h
    exact ⟨h.1, h.2.push hev⟩
  · rename_i hc
    rw [hc] at h
    rw [World.push_hist, answersTo_concat_other rt db₀ hev]
    exact h

/-- Between GET and DEL the time may go by, on both sides. -/
theorem Burning.tick {i : Nat} {r : NodeReq} {k str : Bytes} {w : NodeWorld}
    (h : Burning rt db₀ i r k str w) (d : Nat) :
    Burning rt db₀ i r k str
      (w.push (.env (.tick d) w.shared { w.shared with db := w.shared.db.tick d })) := by
  refine ⟨h.toSound.tick d, h.call, ?_, ?_, ?_⟩
  · rw [World.push_hist, spec_tick, h.erased]
    exact Expiry.Map.tick_erase _ _ _
  · obtain ⟨ev, hm, ht⟩ := h.seen
    exact ⟨ev, World.mem_push_of_mem hm _, ht⟩
  · rw [World.push_hist, answersTo_concat_other rt db₀ (by simp)]
    exact h.answer

/-- The first command of a GET. -/
theorem get_step {i : Nat} {r : NodeReq} {k : Bytes} {w : NodeWorld} (hc : r.call = .ok (.get k))
    (hw : AtRest rt db₀ w) (hf : w.Fresh i) :
    (outline rt db₀).AfterGet rt i r k
      (afterCommand w i r (.get k) (some (execute w.shared.db (.get k)).1, w.shared))
      (some (execute w.shared.db (.get k)).1) := by
  -- the call takes effect on the store at the GET, burning included
  have hspec := spec_first rt db₀ hf hc (.get k)
    (some (execute w.shared.db (.get k)).1) w.shared w.shared
  have hnil := answersTo_eq_nil rt db₀ hf
  have hsound : Sound (afterCommand w i r (.get k)
      (some (execute w.shared.db (.get k)).1, w.shared)) :=
    ⟨hw.connected, hw.running, hw.strings⟩
  rw [← hw.agree] at hspec
  cases hk : w.shared.db.get k with
  | none =>
      rw [execute_get_none hk] at hspec hsound ⊢
      rw [rt.settings.serve_get_none hk] at hspec
      refine ⟨⟨hsound, ?_⟩, ?_⟩
      · rw [World.push_hist, hspec]
        rfl
      · simp only [outline, Answered, hc]
        exact ⟨.missing, by rw [World.push_hist, hspec, answersTo_concat_self, hnil]; rfl, rfl⟩
  | some e =>
      have hstr : cString e.val = e.val := cString_of_nulFree (hw.strings k e hk)
      rw [execute_get_some hk] at hspec hsound ⊢
      rw [rt.settings.serve_get_some hk] at hspec
      have hans : answersTo i (spec rt db₀ (w.hist ++ [commandEvent i r (.get k)
          (some (.string e.val)) w.shared w.shared])).2 = [.found (cString e.val)] := by
        rw [hspec, answersTo_concat_self, hnil, hstr]
        rfl
      simp only [NodeOutline.AfterGet]
      -- to be burnt: the store has given it up, Redis does with the DEL
      by_cases hbar : rt.bar = true
      · rw [if_pos hbar]
        refine ⟨hsound, hc, ?_, ?_, hans⟩
        · rw [World.push_hist, hspec]
          simp [Wsrt.settings, hbar]
        · exact ⟨_, World.mem_push_self _ _, rfl⟩
      · rw [if_neg hbar]
        refine ⟨⟨hsound, ?_⟩, ?_⟩
        · rw [World.push_hist, hspec]
          simp [Wsrt.settings, hbar]
        · simp only [outline, Answered, hc]
          exact ⟨_, hans, rfl⟩

/-- The one command of a POST. -/
theorem set_step {i : Nat} {r : NodeReq} {k v : Bytes} {w : NodeWorld}
    (hc : r.call = .ok (.put k v)) (hw : AtRest rt db₀ w) (hf : w.Fresh i) :
    (outline rt db₀).AfterSet i r
      (afterCommand w i r (storeCommand rt k v)
        (some (execute w.shared.db (storeCommand rt k v)).1,
          { w.shared with db := (execute w.shared.db (storeCommand rt k v)).2 }))
      (some (execute w.shared.db (storeCommand rt k v)).1) := by
  obtain ⟨-, -, -, -, hz⟩ := NodeReq.call_eq_put hc
  -- what was validated has no NUL, so that the body goes to Redis whole
  have hv : NulFree v := fun c hc => z85Alphabet_nulFree c (hz c hc)
  obtain ⟨hdb, hans, hstr⟩ := execute_store rt k hv hw.strings
  have hspec := spec_first rt db₀ hf hc (storeCommand rt k v)
    (some (execute w.shared.db (storeCommand rt k v)).1) w.shared
    { w.shared with db := (execute w.shared.db (storeCommand rt k v)).2 }
  have hnil := answersTo_eq_nil rt db₀ hf
  rw [← hw.agree] at hspec
  refine ⟨⟨⟨hw.connected, hw.running, hstr⟩, ?_⟩, ?_⟩
  · rw [World.push_hist, hspec]
    exact hdb
  · simp only [outline, Answered, hc]
    exact ⟨_, by rw [World.push_hist, hspec, answersTo_concat_self, hnil]; rfl, hans⟩

/-- The second command of a GET that burns what it read. -/
theorem del_step {i : Nat} {r : NodeReq} {k str : Bytes} {w : NodeWorld}
    (hw : Burning rt db₀ i r k str w) (reply : Option Reply) :
    AtRest rt db₀
        (afterCommand w i r (.del k) (reply, { w.shared with db := w.shared.db.erase k })) ∧
      Answered rt db₀ i r ⟨httpOk, cString str⟩
        (afterCommand w i r (.del k) (reply, { w.shared with db := w.shared.db.erase k })) := by
  -- the DEL is no call of its own: the store moved at the GET
  have hspec := spec_later rt db₀ hw.seen r (.redisCommand (.del k)) reply
    w.shared { w.shared with db := w.shared.db.erase k }
  refine ⟨⟨⟨hw.connected, hw.running, strings_erase hw.strings k⟩, ?_⟩, ?_⟩
  · rw [World.push_hist, hspec, hw.erased]
    rfl
  · simp only [Answered, hw.call]
    exact ⟨_, by rw [World.push_hist, hspec, hw.answer], rfl⟩

/-- The nodes of the server follow the rule, with the store as the invariant. -/
theorem outline_valid : (outline rt db₀).Valid rt .faithful where
  always_of_rest h := h.toSound
  always_of_burning h := h.toSound
  always_of_failing h := h.elim
  rest_env := by
    intro w e σ' h he
    obtain ⟨d, rfl, rfl⟩ := Server.env_faithful he
    exact h.tick d
  burning_env := by
    intro i r k str w e σ' h he
    obtain ⟨d, rfl, rfl⟩ := Server.env_faithful he
    exact h.tick d
  failing_env h := h.elim
  post_push h hev := h.push hev
  stopped := by
    intro i r w hw hstop
    -- a server that answers every command is not stopped
    simp [hw.running] at hstop
  refused := by
    intro i r resp w hc _ hf
    simp only [outline, Answered, hc]
    exact ⟨trivial, hf⟩
  get_step := by
    intro i r k w out hc hw hf hout
    have := get_step hc hw hf
    rw [Server.command_answered hw.connected hout, execute_get]
    exact this
  set_step := by
    intro i r k v w out hc hw hf hout
    rw [Server.command_answered hw.connected hout]
    exact set_step hc hw hf
  del_step := by
    intro i r k str w out h hout
    rw [Server.command_answered h.connected hout]
    exact del_step h _
  error_step h := h.elim

/-! ## The refinement -/

/-- What concurrent requests were told and what they left behind is what the
    store says and keeps.  A request that is refused leaves no event; one that
    is not has exactly one call on the store.  Between the two commands of a
    burning GET Redis still holds the entry that the store has given up. -/
structure Refines (rt : Wsrt) (db₀ : Db) (h : List NodeEvent)
    (s : Sys Rai Server NodeReq Response) : Prop where
  answers : ∀ (i : Nat) (t : Thread Rai NodeReq Response) (a : Response),
    s.threads[i]? = some t → t.code = .done a →
      match t.req.call with
      | .error resp => a = resp ∧ ∀ ev ∈ h, ev.tid ≠ some i
      | .ok _ => ∃ ans, answersTo i (spec rt db₀ h).2 = [ans] ∧ a = answerResponse ans
  contents : s.shared.db = (spec rt db₀ h).1 ∨
    ∃ (i : Nat) (t : Thread Rai NodeReq Response) (k : Bytes)
      (p : Option Reply → Prog Rai Response),
      s.holder = some i ∧ s.threads[i]? = some t ∧
      t.code = .op (S := Rai) (.redisCommand (.del k)) p ∧
      (spec rt db₀ h).1 = s.shared.db.erase k

/-- The store nodes refine the store, whatever the interleaving. -/
theorem node_refines_store (hm : rt.multithreaded = true)
    (hdb : ∀ k e, db₀.get k = some e → NulFree e.val) {h : List NodeEvent}
    {s : Sys Rai Server NodeReq Response}
    (run : (nodeMachine .faithful rt).Run (Machine.init (Server.start db₀)) h s) :
    Refines rt db₀ h s := by
  have h₀ : (outline rt db₀).Rest ⟨[], Server.start db₀⟩ := ⟨⟨rfl, rfl, hdb⟩, rfl⟩
  have H := outline_valid.holds h₀ run
  refine ⟨fun i t a ht ha => outline_valid.answered h₀ run ht ha, ?_⟩
  -- a thread in its section may be between the two commands of a burning GET
  by_cases hs : ∃ i, (nodeMachine .faithful rt).InSection s i
  · obtain ⟨i, hi⟩ := hs
    obtain ⟨t, ht, hA⟩ := H.sect i hi
    rw [Outline.inSection_concurrent hm] at hi
    generalize hp : t.code = p at hA
    cases hA with
    | dispatch _ hw _ => exact .inl hw.agree
    | start _ _ hw _ => exact .inl hw.agree
    | burning hw => exact .inr ⟨i, t, _, _, hi, ht, hp, hw.erased⟩
    | failing hw => exact hw.elim
    | finish _ hw _ => exact .inl hw.agree
  · exact .inl (H.rest fun i hi => hs ⟨i, hi⟩).agree

/-- A store that burns, overwrites nothing and forgets after a minute. -/
def strictRt : Wsrt := ⟨true, 0, 0, 0, 60, true, true⟩

/-- One POST and two GETs of the same token in different spelling; the second
    GET comes between the two commands of the first and has to wait. -/
def burnSchedule : List (Label NodeReq Env Outcome) :=
  [.spawn ⟨.alg128, .post, upperToken, ascii "HelloWorld"⟩,
    .spawn ⟨.alg128, .get, lowerToken, []⟩,
    .spawn ⟨.alg128, .get, upperToken, []⟩,
    .act 0 .answered, .act 0 .answered, .act 0 .answered, .act 1 .answered, .act 0 .answered,
    .act 1 .answered, .act 1 .answered, .env (.tick 500), .act 2 .answered, .act 1 .answered,
    .act 1 .answered, .act 2 .answered, .act 2 .answered, .act 2 .answered]

theorem node_refines_store_burn :
    ∃ h s, (nodeMachine .faithful strictRt).Run (Machine.init (Server.start (.empty 0))) h s ∧
      s.threads.map (·.code.answer?) =
        [some ⟨200, ascii "ok"⟩, some ⟨200, ascii "HelloWorld"⟩, some ⟨404, ascii "not found"⟩] ∧
      Refines strictRt (.empty 0) h s := by
  have hrun : ((nodeMachine .faithful strictRt).follow (Machine.init (Server.start (.empty 0)))
      burnSchedule).map (fun p => p.2.threads.map (·.code.answer?)) =
      some [some ⟨200, ascii "ok"⟩, some ⟨200, ascii "HelloWorld"⟩,
        some ⟨404, ascii "not found"⟩] := by decide +kernel
  obtain ⟨h, s, run, hs⟩ := Machine.exists_run_of_follow hrun
  exact ⟨h, s, run, hs, node_refines_store rfl (by simp) run⟩

end Refine

end Webstore
