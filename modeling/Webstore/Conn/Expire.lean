/-
  Webstore.Conn.Expire

  Whether counters go away.  SET gives a counter its time to live and INCR
  keeps it, but an INCR that no longer finds the counter creates one without:
  that one stays, and once it has reached the limit its address is denied for
  good.  As long as no counter expires between the GET that read it and the
  INCR that follows, every counter has a deadline within the period, and an
  address that keeps silent for that long is accepted again.
-/
import Webstore.Conn.Rule

namespace Webstore

open Webstore.Libc Webstore.Sched

namespace Expire

/-- The period in milliseconds. -/
def period (rt : Wsrt) : Nat := 1000 * rt.reqperiod.toNat

/-- Every counter has a deadline within the period. -/
def TtlBound (rt : Wsrt) (s : Server) : Prop :=
  ∀ ip e, s.db.get (ipKey ip) = some e → ∃ t, e.deadline = some t ∧ t ≤ s.db.now + period rt

/-- An INCR that does not find its key. -/
def incrMisses : ConnEvent → Bool
  | .op _ _ (.redisCommand (.incr k)) _ pre _ => (pre.db.get k).isNone
  | _ => false

/-- No counter expired under a check that had found it. -/
def Steady (h : List ConnEvent) : Prop := ∀ ev ∈ h, incrMisses ev = false

/-- A command on `k`. -/
def touches (k : Bytes) : ConnEvent → Bool
  | .op _ _ (.redisCommand c) _ _ _ => c.key == k
  | _ => false

/-- The time an event takes. -/
def duration : ConnEvent → Nat
  | .env (.tick d) _ _ => d
  | _ => 0

/-- The time a stretch of a history takes. -/
def elapsed (h : List ConnEvent) : Nat := (h.map duration).sum

/-- Counters are not permanent: each has a deadline within the period, and an
    address with no command on its counter for that long is accepted. -/
structure CountersExpire (rt : Wsrt) (h : List ConnEvent) (s : Sys Rai Server Bytes Int) :
    Prop where
  ttl : TtlBound rt s.shared
  forgiven : ∀ ip past gap i v pre post rest,
    h = past ++ gap ++ connEvent i ip (.get (ipKey ip)) v pre post :: rest →
    (∀ ev ∈ gap, touches (ipKey ip) ev = false) → period rt ≤ elapsed gap →
    ∀ (t : Thread Rai Bytes Int) (a : Int), s.threads[i]? = some t → t.code = .done a →
      a = srIpAccept

/-! ## What a command does to the deadlines -/

theorem ttlBound_of_same {rt : Wsrt} {s s' : Server} (h : TtlBound rt s) (hdb : s'.db = s.db) :
    TtlBound rt s' := by
  intro ip e he
  rw [hdb] at he ⊢
  exact h ip e he

/-- A deadline within a period keeps the bound. -/
theorem ttlBound_put {rt : Wsrt} {s s' : Server} (h : TtlBound rt s) {k : Bytes}
    {e : Expiry.Entry Bytes} (hdb : s'.db = s.db.put k e)
    (he : ∃ t, e.deadline = some t ∧ t ≤ s.db.now + period rt) : TtlBound rt s' := by
  intro ip e' he'
  rw [hdb] at he' ⊢
  by_cases hk : ipKey ip = k
  · rw [hk] at he'
    rw [Expiry.Map.eq_of_get_put_self he']
    exact he
  · rw [Expiry.Map.get_put_ne _ _ hk] at he'
    exact h ip e' he'

/-- While time goes by the bound stays. -/
theorem ttlBound_env {rt : Wsrt} {P : Policy} {s s' : Server} {e : Env} (h : TtlBound rt s)
    (he : Server.env P e s = some s') : TtlBound rt s' := by
  cases e with
  | tick d =>
      cases he
      intro ip en hen
      obtain ⟨t, ht, hle⟩ := h ip en (Expiry.Map.get_of_get_tick hen)
      have hnow : (s.db.tick d).now = s.db.now + d := Expiry.Map.now_tick _ _
      exact ⟨t, ht, by simp only [hnow]; omega⟩
  | signal =>
      simp only [Server.env, Option.ite_none_right_eq_some, Option.some.injEq] at he
      obtain ⟨-, rfl⟩ := he
      exact h

/-- Creating a counter gives it the period; counting on one keeps its deadline. -/
theorem ttlBound_save {rt : Wsrt} {s : Server} (h : TtlBound rt s) (ip : Bytes) {found : Bool}
    (hfound : found = true → (s.db.get (ipKey ip)).isSome = true) :
    TtlBound rt { s with db := (execute s.db (saveCommand ip found rt.reqperiod)).2 } := by
  cases found with
  | false =>
      rcases execute_set_cases s.db (ipKey ip) (ascii "1") (some rt.reqperiod.toNat) false with
        ⟨-, msg, hx⟩ | ⟨-, hnx, -, -⟩ | ⟨-, -, hx⟩
      · exact ttlBound_of_same h (by simp [saveCommand, hx])
      · cases hnx
      -- the new entry ends one period from now
      · refine ttlBound_put h (k := ipKey ip)
          (e := ⟨ascii "1", deadlineAfter s.db.now (some rt.reqperiod.toNat)⟩) ?_ ?_
        · simp [saveCommand, hx]
        · exact ⟨s.db.now + period rt, rfl, Nat.le_refl _⟩
  | true =>
      -- the entry keeps its deadline when it is counted up
      obtain ⟨e, he⟩ := Option.isSome_iff_exists.mp (hfound rfl)
      have hx : execute s.db (saveCommand ip true rt.reqperiod) = incrEntry s.db (ipKey ip) e := by
        simp [saveCommand, execute, he]
      rw [hx]
      unfold incrEntry
      split
      · exact h
      · split
        · exact ttlBound_put h rfl (h ip e he)
        · exact h

/-! ## The outline -/

theorem Steady.init {h : List ConnEvent} {ev : ConnEvent} (hs : Steady (h ++ [ev])) : Steady h :=
  fun ev' hm => hs ev' (List.mem_append_left _ hm)

/-- The context is connected, and while no counter expires under a check the
    counters keep their deadlines. -/
structure Bounded (rt : Wsrt) (w : ConnWorld) : Prop where
  connected : w.Every fun s => s.broken = false
  ttl : Steady w.hist → w.Every (TtlBound rt)

/-- Who found no counter is accepted. -/
def Answered (i : Nat) (a : Int) (w : ConnWorld) : Prop :=
  ∀ ip k pre post, connEvent i ip (.get k) (some .nil) pre post ∈ w.hist → a = srIpAccept

/-- The outline of the checks. -/
def outline (rt : Wsrt) : ConnOutline where
  Always := Bounded rt
  Rest := Bounded rt
  Pending _ _ _ := Bounded rt
  Failing _ _ _ _ := False
  Post i _ a w := Answered i a w

theorem Bounded.push {rt : Wsrt} {w : ConnWorld} (h : Bounded rt w) {ev : ConnEvent}
    (hpre : ev.pre = w.shared) (hb : ev.post.broken = false)
    (ht : Steady (w.hist ++ [ev]) → TtlBound rt w.shared → TtlBound rt ev.post) :
    Bounded rt (w.push ev) :=
  ⟨h.connected.push hpre hb, fun hs =>
    (h.ttl hs.init).push hpre (ht hs (h.ttl hs.init).1)⟩

theorem Bounded.env {rt : Wsrt} {w : ConnWorld} (h : Bounded rt w) {e : Env} {s' : Server}
    (he : Server.env .faithful e w.shared = some s') : Bounded rt (w.push (.env e w.shared s')) :=
  h.push rfl ((Server.env_frame he).1.trans h.connected.1) fun _ ht => ttlBound_env ht he

/-- The second command of a check, on a counter that is still there or on none. -/
theorem save_step {rt : Wsrt} {i : Nat} {ip : Bytes} {found : Bool} {w : ConnWorld}
    (h : Bounded rt w) :
    Bounded rt (afterConn w i ip (saveCommand ip found rt.reqperiod)
      (some (execute w.shared.db (saveCommand ip found rt.reqperiod)).1,
        { w.shared with db := (execute w.shared.db (saveCommand ip found rt.reqperiod)).2 })) := by
  refine h.push rfl h.connected.1 fun hs ht => ttlBound_save ht ip ?_
  rintro rfl
  have hthere := hs _ (World.mem_push_self _ _)
  simpa [incrMisses, saveCommand, Option.isSome_iff_ne_none] using hthere

/-- The events of a check never carry a GET that found nothing, except its own
    first one. -/
theorem answered_push {i : Nat} {a : Int} {w : ConnWorld} (h : Answered i a w) {ev : ConnEvent}
    (hev : ∀ ip k pre post, ev ≠ connEvent i ip (.get k) (some .nil) pre post) :
    Answered i a (w.push ev) := by
  intro ip k pre post hm
  rcases World.mem_push.mp hm with hm | heq
  · exact h ip k pre post hm
  · exact absurd heq.symm (hev ip k pre post)

theorem answered_fresh {i : Nat} (a : Int) {w : ConnWorld} (hf : w.Fresh i) : Answered i a w :=
  fun _ _ _ _ hm => absurd rfl (hf _ hm)

theorem answered_accept (i : Nat) (w : ConnWorld) : Answered i srIpAccept w :=
  fun _ _ _ _ _ => rfl

/-- A check whose INCR finds its counter keeps the bound. -/
theorem outline_valid (rt : Wsrt) : (outline rt).Valid rt .faithful where
  always_of_rest h := h
  always_of_pending h := h
  always_of_failing h := h.elim
  rest_env h he := h.env he
  pending_env h he := h.env he
  failing_env h := h.elim
  post_push := by
    intro i ip a w ev h hev
    refine answered_push h fun ip k pre post heq => ?_
    rw [heq] at hev
    exact hev rfl
  local_post _ _ _ := answered_accept _ _
  get_step := by
    intro i ip w out _ hw hf hout
    -- a GET leaves the database as it is
    have hsame : ∀ v, Bounded rt (afterConn w i ip (.get (ipKey ip)) (v, w.shared)) :=
      fun v => hw.push rfl hw.connected.1 fun _ ht => ht
    rw [Server.command_answered hw.connected.1 hout]
    cases hk : w.shared.db.get (ipKey ip) with
    | none =>
        rw [execute_get_none hk]
        exact hsame _
    | some e =>
        rw [execute_get_some hk]
        simp only [ConnOutline.AfterRead]
        split
        · exact hsame _
        · exact ⟨hsame _, answered_push (answered_fresh _ hf) (by simp [connEvent])⟩
  save_step := by
    intro i ip found w out hw hout
    rw [Server.command_answered hw.connected.1 hout]
    exact ⟨save_step hw, answered_accept _ _⟩
  error_step h := h.elim

/-! ## Silence -/

/-- An event that is no command on `k` creates no entry for it. -/
theorem entry_before {rt : Wsrt} {ev : ConnEvent} (hg : (connMachine .faithful rt).Genuine ev)
    {k : Bytes} (ht : touches k ev = false) :
    ev.post.db.now = ev.pre.db.now + duration ev ∧
      ∀ e, ev.post.db.get k = some e → ev.pre.db.get k = some e := by
  rcases ev with ⟨i, ip, o, v, pre, post⟩ | ⟨e, pre, post⟩
  · obtain ⟨out, hx⟩ := hg
    cases o with
    | redisCommand c =>
        -- the command is on another key: the frame of `execute` applies
        have hne : k ≠ c.key := by
          rintro rfl
          simp [touches] at ht
        simp only [connMachine, raiMachine, Server.exec, Option.ite_none_right_eq_some,
          Option.some.injEq] at hx
        obtain ⟨-, hx⟩ := hx
        obtain rfl : (pre.command c out).2 = post := by rw [hx]
        obtain ⟨hnow, hget⟩ := execute_frame pre.db c
        exact Server.command_db (Q := fun db => db.now = pre.db.now + 0 ∧
          ∀ e, db.get k = some e → pre.db.get k = some e) out ⟨rfl, fun _ he => he⟩
          ⟨hnow, fun e he => by rw [← hget k hne]; exact he⟩
    | handleRedisError =>
        cases hx
        exact ⟨rfl, fun _ he => he⟩
    | shuttingDown =>
        cases hx
        exact ⟨rfl, fun _ he => he⟩
    | fault f => cases hx
  · obtain ⟨d, rfl, rfl⟩ := Server.env_faithful hg
    exact ⟨rfl, fun _ he => Expiry.Map.get_of_get_tick he⟩

/-- An entry that is there after a stretch of silence was there before it. -/
theorem entry_through {rt : Wsrt} {gap : List ConnEvent}
    (hg : ∀ ev ∈ gap, (connMachine .faithful rt).Genuine ev) {k : Bytes}
    (ht : ∀ ev ∈ gap, touches k ev = false) {a b : Server} (hl : Machine.Linked a gap b) :
    b.db.now = a.db.now + elapsed gap ∧ ∀ e, b.db.get k = some e → a.db.get k = some e := by
  -- on the stretch, from its first event on
  induction gap generalizing a with
  | nil =>
      obtain rfl : a = b := hl
      exact ⟨rfl, fun _ he => he⟩
  | cons ev gap ih =>
      obtain ⟨rfl, hl⟩ := hl
      obtain ⟨hnow, hget⟩ := entry_before (hg ev List.mem_cons_self) (ht ev List.mem_cons_self)
      obtain ⟨hnow', hget'⟩ := ih (fun ev hm => hg ev (List.mem_cons_of_mem _ hm))
        (fun ev hm => ht ev (List.mem_cons_of_mem _ hm)) hl
      refine ⟨?_, fun e he => hget e (hget' e he)⟩
      have helapsed : elapsed (ev :: gap) = duration ev + elapsed gap := by simp [elapsed]
      omega

/-- A counter with a deadline within the period does not outlive the period. -/
theorem counter_gone {rt : Wsrt} {a b : Server} {n : Nat} (hb : TtlBound rt a)
    (hn : period rt ≤ n) (hnow : b.db.now = a.db.now + n) {ip : Bytes}
    (hget : ∀ e, b.db.get (ipKey ip) = some e → a.db.get (ipKey ip) = some e) :
    b.db.get (ipKey ip) = none := by
  cases hk : b.db.get (ipKey ip) with
  | none => rfl
  | some e =>
      obtain ⟨t, ht, hle⟩ := hb ip e (hget e hk)
      have hlive := b.db.live _ e hk
      simp only [Expiry.Entry.live, ht, decide_eq_true_eq] at hlive
      omega

/-- While no counter expires under a check, counters are not permanent. -/
theorem counters_expire {rt : Wsrt} {db₀ : Db} (h₀ : TtlBound rt (Server.start db₀))
    {h : List ConnEvent} {s : Sys Rai Server Bytes Int}
    (run : (connMachine .faithful rt).Run (Machine.init (Server.start db₀)) h s)
    (hs : Steady h) : CountersExpire rt h s := by
  have V := outline_valid rt
  have hrest : (outline rt).Rest ⟨[], Server.start db₀⟩ :=
    ⟨⟨rfl, by simp⟩, fun _ => ⟨h₀, by simp⟩⟩
  have hbound : Bounded rt ⟨h, s.shared⟩ := V.always hrest run
  refine ⟨(hbound.ttl hs).1, ?_⟩
  rintro ip past gap i v pre post rest rfl hquiet hlong t a ht ha
  have hgen := run.genuine
  obtain ⟨σ, hl, hl'⟩ := Machine.linked_append.mp (raiMachine_linked run)
  obtain ⟨σ', hpast, hgap⟩ := Machine.linked_append.mp hl
  obtain rfl : pre = σ := hl'.1
  -- the state in which the silence began is one before some event
  have hstart : TtlBound rt σ' := by
    cases gap with
    | nil =>
        obtain rfl : σ' = pre := hgap
        exact (hbound.ttl hs).2 (connEvent i ip (.get (ipKey ip)) v σ' post) (by simp)
    | cons ev gap =>
        rw [← hgap.1]
        exact (hbound.ttl hs).2 ev (by simp)
  obtain ⟨hnow, hget⟩ := entry_through (fun ev hm => hgen ev (by simp [hm])) hquiet hgap
  have hnone := counter_gone hstart hlong hnow hget
  have hev : connEvent i ip (.get (ipKey ip)) v pre post ∈
      past ++ gap ++ connEvent i ip (.get (ipKey ip)) v pre post :: rest := by simp
  have hconn : pre.broken = false := hbound.connected.2 _ hev
  -- so the GET found nothing, and such a check accepts
  have hv : v = some .nil := by
    obtain ⟨out, hx⟩ := hgen _ hev
    simp only [connMachine, raiMachine, Server.exec, Option.ite_none_right_eq_some,
      Option.some.injEq] at hx
    obtain ⟨hout, hx⟩ := hx
    rw [Server.command_answered hconn hout, execute_get_none hnone] at hx
    exact (Prod.mk.inj hx).1.symm
  subst hv
  exact V.answered hrest run ht ha ip (ipKey ip) pre post hev

/-- Two connections a second. -/
def twoPerSecond : Wsrt := ⟨true, 1, 2, 0, 0, false, false⟩

def someIp : Bytes := ascii "192.0.2.1"

/-- Three checks fill the limit, and after a second of silence a fourth is
    accepted. -/
def silentSchedule : List (Label Bytes Env Outcome) :=
  [.spawn someIp, .act 0 .answered, .act 0 .answered, .act 0 .answered, .act 0 .answered,
    .spawn someIp, .act 1 .answered, .act 1 .answered, .act 1 .answered, .act 1 .answered,
    .spawn someIp, .act 2 .answered, .act 2 .answered, .act 2 .answered,
    .env (.tick 600), .spawn someIp, .env (.tick 400),
    .act 3 .answered, .act 3 .answered, .act 3 .answered, .act 3 .answered]

theorem counters_expire_silent :
    ∃ h s, (connMachine .faithful twoPerSecond).Run (Machine.init (Server.start (.empty 0))) h s ∧
      s.threads.map (·.code.answer?) =
        [some srIpAccept, some srIpAccept, some srIpDeny, some srIpAccept] ∧
      CountersExpire twoPerSecond h s := by
  have hrun : ((connMachine .faithful twoPerSecond).follow
      (Machine.init (Server.start (.empty 0))) silentSchedule).map
        (fun p => (p.1.all fun ev => !incrMisses ev, p.2.threads.map (·.code.answer?))) =
      some (true, [some srIpAccept, some srIpAccept, some srIpDeny, some srIpAccept]) := by
    decide +kernel
  obtain ⟨h, s, run, hs⟩ := Machine.exists_run_of_follow hrun
  obtain ⟨hsteady, hans⟩ := Prod.mk.inj hs
  refine ⟨h, s, run, hans, counters_expire (by simp [TtlBound, Server.start]) run fun ev hm => ?_⟩
  simpa using List.all_eq_true.mp hsteady ev hm

/-- The counter expires after the second check has read it and before it counts. -/
def gapSchedule : List (Label Bytes Env Outcome) :=
  [.spawn someIp, .act 0 .answered, .act 0 .answered, .act 0 .answered, .act 0 .answered,
    .spawn someIp, .act 1 .answered, .act 1 .answered, .env (.tick 1000), .act 1 .answered,
    .act 1 .answered]

/-- A counter that nothing will ever remove. -/
theorem counter_permanent :
    ∃ h s, (connMachine .faithful twoPerSecond).Run (Machine.init (Server.start (.empty 0))) h s ∧
      ¬ CountersExpire twoPerSecond h s := by
  have hrun : ((connMachine .faithful twoPerSecond).follow
      (Machine.init (Server.start (.empty 0))) gapSchedule).map
        (fun p => (p.2.shared.db.get (ipKey someIp)).map fun e => e.deadline) =
      some (some none) := by decide +kernel
  obtain ⟨h, s, run, hs⟩ := Machine.exists_run_of_follow hrun
  refine ⟨h, s, run, fun hexp => ?_⟩
  obtain ⟨e, he, hnone⟩ := Option.map_eq_some_iff.mp hs
  obtain ⟨t, ht, -⟩ := hexp.ttl someIp e he
  rw [hnone] at ht
  cases ht

end Expire

end Webstore
