/-
  Webstore.Conn.Rate

  The rate of the limiter.  The counter of an address is a fixed window: it
  lives for the period from the connection that created it on, and counts at
  most the limit.  A window of that length laid anywhere else can meet two
  counters, so that almost twice as many connections are accepted in it.
-/
import Mathlib.Data.List.Perm.Subperm
import Webstore.Conn.Count
import Webstore.Conn.Expire
import Webstore.Expiry.Window

namespace Webstore

open Webstore.Libc Webstore.Sched

namespace Rate

open Webstore.Count
open Webstore.Expire (period)

/-- The clock when an event happened. -/
def time (ev : ConnEvent) : Nat := ev.pre.db.now

/-- One event's part in the lives of the counter `k`: a SET begins a new one,
    and so does an INCR that finds none. -/
def live (k : Bytes) (ls : List (List Nat)) : ConnEvent → List (List Nat)
  | .op _ _ (.redisCommand (.set k' _ _ _)) _ pre _ =>
      if k' = k then [pre.db.now] :: ls else ls
  | .op _ _ (.redisCommand (.incr k')) _ pre _ =>
      if k' = k then
        if (pre.db.get k).isNone then [pre.db.now] :: ls
        else (ls.headD [] ++ [pre.db.now]) :: ls.tail
      else ls
  | _ => ls

/-- The lives of the counter `k`, newest first: when each connection was counted. -/
def lives (k : Bytes) (h : List ConnEvent) : List (List Nat) := h.foldl (live k) []

/-- The event creates the counter of `ip`. -/
def Creates (ip : Bytes) (ev : ConnEvent) : Prop :=
  savedKey ev = some (ipKey ip) ∧ ev.pre.db.get (ipKey ip) = none

/-- Thread `i` has accepted a connection from `ip`, and its check counted it
    within the period from `a` on. -/
def AcceptedWithin (rt : Wsrt) (ip : Bytes) (a i : Nat) (h : List ConnEvent)
    (s : Sys Rai Server Bytes Int) : Prop :=
  (∃ t : Thread Rai Bytes Int, s.threads[i]? = some t ∧ cString t.req = cString ip ∧
    t.code = .done srIpAccept) ∧
  ∃ ev ∈ h, ev.tid = some i ∧ savedKey ev = some (ipKey ip) ∧
    a ≤ time ev ∧ time ev < a + period rt

/-- At most `m` connections from `ip` were accepted within the period from `a` on. -/
def AtMost (rt : Wsrt) (ip : Bytes) (a : Nat) (m : Int) (h : List ConnEvent)
    (s : Sys Rai Server Bytes Int) : Prop :=
  ∀ is : List Nat, is.Nodup → (∀ i ∈ is, AcceptedWithin rt ip a i h s) → (is.length : Int) ≤ m

/-- What the limiter promises about its rate: the limit in a period that begins
    with a counter, and less than twice the limit in any other. -/
structure RateBounded (rt : Wsrt) (h : List ConnEvent) (s : Sys Rai Server Bytes Int) :
    Prop where
  first : ∀ ip, ∀ ev ∈ h, Creates ip ev → AtMost rt ip (time ev) rt.reqcount h s
  any : ∀ ip a, AtMost rt ip a (2 * rt.reqcount - 1) h s

/-! ## Lives and events -/

@[simp] theorem lives_concat (k : Bytes) (h : List ConnEvent) (ev : ConnEvent) :
    lives k (h ++ [ev]) = live k (lives k h) ev := by
  simp [lives]

/-- Everything an event can do to the lives of `k`. -/
theorem live_cases (k : Bytes) (ls : List (List Nat)) (ev : ConnEvent) :
    (savedKey ev ≠ some k ∧ live k ls ev = ls) ∨
    (savedKey ev = some k ∧ live k ls ev = [time ev] :: ls) ∨
    (savedKey ev = some k ∧ ev.pre.db.get k ≠ none ∧
      live k ls ev = (ls.headD [] ++ [time ev]) :: ls.tail) := by
  rcases ev with ⟨i, ip, o, v, pre, post⟩ | ⟨e, pre, post⟩
  -- only SET and INCR count, and INCR goes on with a life if its entry is there
  · rcases o with (k' | k' | ⟨k', v', ex, nx⟩ | k') | - | - | f
    · exact .inl ⟨nofun, rfl⟩
    · exact .inl ⟨nofun, rfl⟩
    · by_cases hk : k' = k
      · exact .inr (.inl ⟨congrArg some hk, by simp [live, hk, time]⟩)
      · exact .inl ⟨fun h => hk (Option.some.inj h), by simp [live, hk]⟩
    · by_cases hk : k' = k
      · cases hget : pre.db.get k with
        | none => exact .inr (.inl ⟨congrArg some hk, by simp [live, hk, time, hget]⟩)
        | some e =>
            refine .inr (.inr ⟨congrArg some hk, ?_, by simp [live, hk, time, hget]⟩)
            simp [hget]
      · exact .inl ⟨fun h => hk (Option.some.inj h), by simp [live, hk]⟩
    · exact .inl ⟨nofun, rfl⟩
    · exact .inl ⟨nofun, rfl⟩
    · exact .inl ⟨nofun, rfl⟩
  · exact .inl ⟨nofun, rfl⟩

/-- An event that counts on no key or on another one. -/
theorem live_of_savedKey_ne {k : Bytes} {ev : ConnEvent} (h : savedKey ev ≠ some k)
    (ls : List (List Nat)) : live k ls ev = ls := by
  rcases live_cases k ls ev with ⟨-, hl⟩ | ⟨hk, -⟩ | ⟨hk, -, -⟩
  · exact hl
  · exact absurd hk h
  · exact absurd hk h

/-- An event that counts on `k` adds its time. -/
theorem countP_live {k : Bytes} {ev : ConnEvent} (h : savedKey ev = some k) (p : Nat → Bool)
    (ls : List (List Nat)) :
    (live k ls ev).flatten.countP p = ls.flatten.countP p + if p (time ev) then 1 else 0 := by
  rcases live_cases k ls ev with ⟨hk, -⟩ | ⟨-, hl⟩ | ⟨-, -, hl⟩
  · exact absurd h hk
  · rw [hl]
    simp [List.countP_cons]
  · rw [hl]
    cases ls <;> simp [List.countP_append, List.countP_cons, Nat.add_assoc]

/-- The lives of a counter are made of the events that count on it. -/
theorem countP_lives (k : Bytes) (p : Nat → Bool) (h : List ConnEvent) :
    (lives k h).flatten.countP p =
      h.countP fun ev => decide (savedKey ev = some k) && p (time ev) := by
  induction h using List.reverseRecOn with
  | nil => rfl
  | append_singleton h ev ih =>
      rw [lives_concat, List.countP_append, ← ih]
      by_cases hk : savedKey ev = some k
      · rw [countP_live hk]
        simp [List.countP_cons, hk]
      · rw [live_of_savedKey_ne hk]
        simp [hk]

/-- The event counts on `ip` within the period from `a` on. -/
def countsWithin (rt : Wsrt) (ip : Bytes) (a : Nat) (ev : ConnEvent) : Bool :=
  decide (savedKey ev = some (ipKey ip)) &&
    (decide (a ≤ time ev) && decide (time ev < a + period rt))

/-- Accepted connections are no more than the events that counted them. -/
theorem atMost_of_within {rt : Wsrt} {ip : Bytes} {a : Nat} {m : Int} {h : List ConnEvent}
    {s : Sys Rai Server Bytes Int}
    (hm : (Expiry.within (period rt) a (lives (ipKey ip) h).flatten : Int) ≤ m) :
    AtMost rt ip a m h s := by
  intro is hnodup hall
  -- each accepted check has an event of its own among the counted ones
  have hsub : is ⊆ (h.filter (countsWithin rt ip a)).filterMap Event.tid := by
    intro i hi
    obtain ⟨-, ev, hev, htid, hk, ha, hb⟩ := hall i hi
    refine List.mem_filterMap.mpr ⟨ev, List.mem_filter.mpr ⟨hev, ?_⟩, htid⟩
    simp [countsWithin, hk, ha, hb]
  have hlen := (List.subperm_of_subset hnodup hsub).length_le
  have hmap := List.length_filterMap_le Event.tid (h.filter (countsWithin rt ip a))
  have hcount : Expiry.within (period rt) a (lives (ipKey ip) h).flatten =
      (h.filter (countsWithin rt ip a)).length := by
    rw [Expiry.within, countP_lives, List.countP_eq_length_filter]
    rfl
  omega

/-! ## The pace of a counter -/

/-- The life that is going on or was the last. -/
def latest (ip : Bytes) (h : List ConnEvent) : List Nat := (lives (ipKey ip) h).headD []

/-- The lives of the counter of `ip` against the database: its entry expires
    when its life is over, or never. -/
structure Pace (rt : Wsrt) (ip : Bytes) (w : ConnWorld) : Prop where
  lives : Expiry.Lives (period rt) rt.reqcount.toNat (lives (ipKey ip) w.hist)
  current : (latest ip w.hist).length = count w ip
  past : ∀ x ∈ latest ip w.hist, x ≤ w.shared.db.now
  present : ∀ e, w.shared.db.get (ipKey ip) = some e →
    ∃ c, (latest ip w.hist).head? = some c ∧
      (e.deadline = none ∨
        e.deadline = some (c + period rt) ∧ ∀ x ∈ latest ip w.hist, x < c + period rt)
  absent : w.shared.db.get (ipKey ip) = none →
    ∀ l ∈ (Rate.lives (ipKey ip) w.hist).head?, Expiry.Over (period rt) l w.shared.db.now

theorem Over_mono {P a b : Nat} {l : List Nat} (h : Expiry.Over P l a) (hab : a ≤ b) :
    Expiry.Over P l b := by
  obtain ⟨c, hc, hle, hlt⟩ := h
  exact ⟨c, hc, Nat.le_trans hle hab, hlt⟩

section
variable {rt : Wsrt} {ip : Bytes} {w : ConnWorld}

/-- An event that leaves the counter of `ip` alone. -/
theorem Pace.frame (h : Pace rt ip w) {ev : ConnEvent} (hs : savedKey ev ≠ some (ipKey ip))
    (hnow : ev.post.db.now = w.shared.db.now)
    (hget : ev.post.db.get (ipKey ip) = w.shared.db.get (ipKey ip)) : Pace rt ip (w.push ev) := by
  have hlives : Rate.lives (ipKey ip) (w.push ev).hist = Rate.lives (ipKey ip) w.hist := by
    rw [World.push_hist, lives_concat, live_of_savedKey_ne hs]
  have hlatest : latest ip (w.push ev).hist = latest ip w.hist := by rw [latest, hlives, latest]
  have hcount : count (w.push ev) ip = count w ip := by
    rw [count, World.push_hist, acceptedSince_concat, tally_of_savedKey_ne hs, count]
  refine ⟨?_, ?_, ?_, ?_, ?_⟩
  · rw [hlives]
    exact h.lives
  · rw [hlatest, hcount]
    exact h.current
  · rw [hlatest, World.push_shared, hnow]
    exact h.past
  · rw [hlatest, World.push_shared, hget]
    exact h.present
  · rw [hlives, World.push_shared, hnow, hget]
    exact h.absent

/-- Time passes; when the entry expires its life is over. -/
theorem Pace.tick (h : Pace rt ip w) (d : Nat) :
    Pace rt ip (w.push (.env (.tick d) w.shared
      { w.shared with db := w.shared.db.tick d })) := by
  have hlives : Rate.lives (ipKey ip) (w.push (.env (.tick d) w.shared
      { w.shared with db := w.shared.db.tick d })).hist = Rate.lives (ipKey ip) w.hist := by
    rw [World.push_hist, lives_concat]
    rfl
  have hlatest : latest ip (w.push (.env (.tick d) w.shared
      { w.shared with db := w.shared.db.tick d })).hist = latest ip w.hist := by
    rw [latest, hlives, latest]
  refine ⟨?_, ?_, ?_, ?_, ?_⟩
  · rw [hlives]
    exact h.lives
  · rw [hlatest, h.current, count, count, World.push_hist, acceptedSince_concat]
    rfl
  · rw [hlatest]
    intro x hx
    exact Nat.le_trans (h.past x hx) (Nat.le_add_right _ d)
  · rw [hlatest]
    intro e he
    exact h.present e (Expiry.Map.get_of_get_tick he)
  · rw [hlives]
    intro hnone l hl
    cases hk : w.shared.db.get (ipKey ip) with
    | none => exact Over_mono (h.absent hk l hl) (Nat.le_add_right _ d)
    -- this tick has removed the entry: its deadline is the end of its life
    | some e =>
        obtain ⟨t, ht, hle⟩ := Expiry.Map.deadline_of_get_tick_eq_none hk hnone
        obtain ⟨c, hc, hdead⟩ := h.present e hk
        have hl' : latest ip w.hist = l := by
          rw [latest, List.headD_eq_head?_getD, hl]
          rfl
        rw [hl'] at hc hdead
        rcases hdead with hdead | ⟨hdead, hlt⟩
        · rw [hdead] at ht
          cases ht
        · rw [hdead] at ht
          cases ht
          exact ⟨c, hc, hle, hlt⟩

/-- A new counter, with a deadline or without. -/
theorem Pace.create (h : Pace rt ip w) {ev : ConnEvent} {e : Expiry.Entry Bytes}
    (habsent : w.shared.db.get (ipKey ip) = none)
    (hdb : ev.post.db = w.shared.db.put (ipKey ip) e)
    (hlive : e.live w.shared.db.now = true)
    (hdead : e.deadline = none ∨ e.deadline = some (w.shared.db.now + period rt) ∧ 0 < period rt)
    (hl : live (ipKey ip) (Rate.lives (ipKey ip) w.hist) ev =
      [w.shared.db.now] :: Rate.lives (ipKey ip) w.hist)
    (ht : (tally (ipKey ip) (acceptedSince (ipKey ip) w.hist) ev).length = 1) :
    Pace rt ip (w.push ev) := by
  have hlives : Rate.lives (ipKey ip) (w.push ev).hist =
      [w.shared.db.now] :: Rate.lives (ipKey ip) w.hist := by
    rw [World.push_hist, lives_concat, hl]
  have hlatest : latest ip (w.push ev).hist = [w.shared.db.now] := by
    rw [latest, hlives]
    rfl
  have hget : (w.push ev).shared.db.get (ipKey ip) = some e := by
    rw [World.push_shared, hdb, Expiry.Map.get_put_self _ _ hlive]
  have hnow : (w.push ev).shared.db.now = w.shared.db.now := by
    rw [World.push_shared, hdb, Expiry.Map.now_put]
  refine ⟨?_, ?_, ?_, ?_, ?_⟩
  -- the life before is over, since its entry was gone
  · rw [hlives]
    exact .create h.lives (h.absent habsent)
  · rw [hlatest, count, World.push_hist, acceptedSince_concat, ht]
    rfl
  · rw [hlatest, hnow]
    simp
  · rw [hlatest, hget]
    rintro e' ⟨⟩
    refine ⟨_, rfl, hdead.imp id fun hd => ⟨hd.1, fun x hx => ?_⟩⟩
    rw [List.mem_singleton.mp hx]
    exact Nat.lt_add_of_pos_right hd.2
  · rw [hget]
    intro hnone
    cases hnone

/-- One more on a counter that has room. -/
theorem Pace.add (h : Pace rt ip w) {ev : ConnEvent} {e e' : Expiry.Entry Bytes}
    (hk : w.shared.db.get (ipKey ip) = some e) (hroom : (count w ip : Int) < rt.reqcount)
    (hdb : ev.post.db = w.shared.db.put (ipKey ip) e') (hdead : e'.deadline = e.deadline)
    (hl : live (ipKey ip) (Rate.lives (ipKey ip) w.hist) ev =
      (latest ip w.hist ++ [w.shared.db.now]) :: (Rate.lives (ipKey ip) w.hist).tail)
    (ht : (tally (ipKey ip) (acceptedSince (ipKey ip) w.hist) ev).length = count w ip + 1) :
    Pace rt ip (w.push ev) := by
  obtain ⟨c, hc, hd⟩ := h.present e hk
  obtain ⟨ls, hls⟩ : ∃ ls, Rate.lives (ipKey ip) w.hist = latest ip w.hist :: ls := by
    cases hL : Rate.lives (ipKey ip) w.hist with
    | nil => simp [latest, hL] at hc
    | cons l ls => exact ⟨ls, by simp [latest, hL]⟩
  -- the deadline has not passed, so the entry that is written is live
  have hlives : Rate.lives (ipKey ip) (w.push ev).hist =
      (latest ip w.hist ++ [w.shared.db.now]) :: ls := by
    rw [World.push_hist, lives_concat, hl, hls]
    rfl
  have hlatest : latest ip (w.push ev).hist = latest ip w.hist ++ [w.shared.db.now] := by
    rw [latest, hlives]
    rfl
  have hlive : e'.live w.shared.db.now = true := by
    have := w.shared.db.live _ e hk
    rwa [Expiry.Entry.live, hdead]
  have hget : (w.push ev).shared.db.get (ipKey ip) = some e' := by
    rw [World.push_shared, hdb, Expiry.Map.get_put_self _ _ hlive]
  have hnow : (w.push ev).shared.db.now = w.shared.db.now := by
    rw [World.push_shared, hdb, Expiry.Map.now_put]
  refine ⟨?_, ?_, ?_, ?_, ?_⟩
  · have hcur := h.current
    have hold := h.lives
    rw [hls] at hold
    rw [hlives]
    exact .add hold (by omega) h.past
  · rw [hlatest, count, World.push_hist, acceptedSince_concat, ht, List.length_append, h.current]
    rfl
  · rw [hlatest, hnow]
    intro x hx
    rcases List.mem_append.mp hx with hx | hx
    · exact h.past x hx
    · exact Nat.le_of_eq (List.mem_singleton.mp hx)
  · rw [hlatest, hget]
    rintro _ ⟨⟩
    refine ⟨c, by simp [hc], hdead ▸ hd.imp id fun hd => ⟨hd.1, fun x hx => ?_⟩⟩
    rcases List.mem_append.mp hx with hx | hx
    · exact hd.2 x hx
    · -- the entry is still there, so its deadline lies ahead
      rw [List.mem_singleton.mp hx]
      simpa [Expiry.Entry.live, hdead, hd.1] using hlive
  · rw [hget]
    intro hnone
    cases hnone

end

/-! ## The steps of a check -/

/-- Every counter keeps its pace. -/
def Paced (rt : Wsrt) (w : ConnWorld) : Prop := ∀ ip, Pace rt ip w

theorem key_saveCommand (ip : Bytes) (found : Bool) (period : Int) :
    (saveCommand ip found period).key = ipKey ip := by
  cases found <;> rfl

/-- The second command of a check. -/
theorem Pace.save {rt : Wsrt} (hperiod : 0 < rt.reqperiod) (hmax : rt.reqcount ≤ 2 ^ 31 - 1)
    {i : Nat} {ip : Bytes} {found : Bool}
    {w : ConnWorld} (h : Pace rt ip w) (hA : Admitted rt i ip found w) :
    Pace rt ip (afterConn w i ip (saveCommand ip found rt.reqperiod)
      (some (execute w.shared.db (saveCommand ip found rt.reqperiod)).1,
        { w.shared with db := (execute w.shared.db (saveCommand ip found rt.reqperiod)).2 })) := by
  cases found with
  | false =>
      have hne : rt.reqperiod.toNat ≠ 0 := by omega
      -- no counter was found: a life begins, with a deadline
      have hx : execute w.shared.db (saveCommand ip false rt.reqperiod) =
          (.status (ascii "OK"), w.shared.db.put (ipKey ip)
            ⟨ascii "1", deadlineAfter w.shared.db.now (some rt.reqperiod.toNat)⟩) := by
        simp [saveCommand, execute, hne]
      rw [hx]
      refine h.create (hA.absent rfl) rfl (live_deadlineAfter (by simpa using hne))
        (.inr ⟨rfl, ?_⟩) (by simp [live, saveCommand]) (by simp [tally, saveCommand])
      unfold period
      omega
  | true =>
      cases hk : w.shared.db.get (ipKey ip) with
      | none =>
          -- it expired since it was read: INCR begins a life without a deadline
          have hx : execute w.shared.db (saveCommand ip true rt.reqperiod) =
              (.integer 1, w.shared.db.put (ipKey ip) ⟨ascii "1", none⟩) := execute_incr_none hk
          rw [hx]
          refine h.create hk rfl rfl (.inl rfl) ?_ ?_
          · simp [live, saveCommand, hk]
          · simp [tally, saveCommand, hk]
      | some e =>
          have hx : execute w.shared.db (saveCommand ip true rt.reqperiod) =
              (.integer (count w ip + 1),
                w.shared.db.put (ipKey ip) { e with val := decimal (count w ip + 1) }) :=
            hA.incr hmax hk
          rw [hx]
          refine h.add hk (hA.room e hk) rfl rfl ?_ ?_
          -- the life that is going on has one event more
          · simp [live, saveCommand, hk, latest]
          · simp [tally, saveCommand, hk, count]

/-- Two spellings of one address have one counter. -/
theorem Pace.congr {rt : Wsrt} {ip ip' : Bytes} {w : ConnWorld} (h : Pace rt ip w)
    (hk : ipKey ip' = ipKey ip) : Pace rt ip' w := by
  have hlatest : latest ip' w.hist = latest ip w.hist := by rw [latest, hk, latest]
  have hcount : count w ip' = count w ip := by rw [count, hk, count]
  refine ⟨?_, ?_, ?_, ?_, ?_⟩
  · rw [hk]
    exact h.lives
  · rw [hlatest, hcount]
    exact h.current
  · rw [hlatest]
    exact h.past
  · rw [hlatest, hk]
    exact h.present
  · rw [hk]
    exact h.absent

/-- A command on one counter leaves the others alone. -/
theorem Pace.other {rt : Wsrt} {i : Nat} {ip ip' : Bytes} {w : ConnWorld} (h : Pace rt ip' w)
    (hne : ipKey ip' ≠ ipKey ip) {c : Cmd} (hc : c.key = ipKey ip) (v : Option Reply) :
    Pace rt ip' (afterConn w i ip c (v, { w.shared with db := (execute w.shared.db c).2 })) := by
  obtain ⟨hnow, hget⟩ := execute_frame w.shared.db c
  refine h.frame (fun hs => hne ?_) hnow (hget _ (hc ▸ hne))
  cases c with
  | get k => cases hs
  | del k => cases hs
  | set k v' ex nx => exact (Option.some.inj hs).symm.trans hc
  | incr k => exact (Option.some.inj hs).symm.trans hc

/-- No event of a check breaks the pace. -/
theorem paced_keeps {rt : Wsrt} (hperiod : 0 < rt.reqperiod) (hmax : rt.reqcount ≤ 2 ^ 31 - 1) :
    (outline rt).Keeps rt .faithful (Paced rt) where
  env h he ip := by
    obtain ⟨d, rfl, rfl⟩ := Server.env_faithful he
    exact (h ip).tick d
  get := by
    intro i ip w out hr h hout ip'
    rw [Server.command_answered hr.connected hout]
    refine (h ip').frame (by simp [savedKey]) ?_ ?_
    · exact (execute_frame w.shared.db (.get (ipKey ip))).1
    · show (execute w.shared.db (.get (ipKey ip))).2.get (ipKey ip') = _
      rw [execute_get]
  save := by
    intro i ip found w out hA h hout ip'
    rw [Server.command_answered hA.counting.connected hout]
    -- two addresses may have one key
    by_cases hk : ipKey ip' = ipKey ip
    · exact ((h ip).save hperiod hmax hA).congr hk
    · exact (h ip').other hk (key_saveCommand ..) _
  error := by
    intro i ip a w hF
    exact hF.elim

/-! ## Every run -/

/-- Some life of a counter begins at `c`. -/
def BeginsAt (c : Nat) (ls : List (List Nat)) : Prop := ∃ l ∈ ls, l.head? = some c

/-- A beginning is never lost. -/
theorem BeginsAt.live {c : Nat} {ls : List (List Nat)} (h : BeginsAt c ls) (k : Bytes)
    (ev : ConnEvent) : BeginsAt c (live k ls ev) := by
  obtain ⟨l, hl, hc⟩ := h
  rcases live_cases k ls ev with ⟨-, hls⟩ | ⟨-, hls⟩ | ⟨-, -, hls⟩
  · rw [hls]
    exact ⟨l, hl, hc⟩
  · rw [hls]
    exact ⟨l, List.mem_cons_of_mem _ hl, hc⟩
  · rw [hls]
    cases ls with
    | nil => cases hl
    | cons l' ls =>
        rcases List.mem_cons.mp hl with rfl | hl
        · exact ⟨_, List.mem_cons_self, by simp [hc]⟩
        · exact ⟨l, List.mem_cons_of_mem _ hl, hc⟩

/-- A counter that is created begins a life. -/
theorem BeginsAt.of_creates {ip : Bytes} {ev : ConnEvent} (h : Creates ip ev)
    (ls : List (List Nat)) : BeginsAt (time ev) (Rate.live (ipKey ip) ls ev) := by
  rcases live_cases (ipKey ip) ls ev with ⟨hk, -⟩ | ⟨-, hls⟩ | ⟨-, hget, -⟩
  · exact absurd h.1 hk
  · rw [hls]
    exact ⟨_, List.mem_cons_self, rfl⟩
  · exact absurd h.2 hget

/-- A connection that creates a counter is the first of one of its lives. -/
theorem BeginsAt.of_mem {ip : Bytes} {h : List ConnEvent} {ev : ConnEvent} (hm : ev ∈ h)
    (hc : Creates ip ev) : BeginsAt (time ev) (lives (ipKey ip) h) := by
  induction h using List.reverseRecOn with
  | nil => cases hm
  | append_singleton h ev' ih =>
      rw [lives_concat]
      rcases List.mem_append.mp hm with hm | hm
      · exact (ih hm).live _ _
      · rw [← List.mem_singleton.mp hm]
        exact .of_creates hc _

/-- The limiter lets `reqcount` connections pass in a period that begins with a
    counter, and fewer than twice as many in any other. -/
theorem rate_bounded {rt : Wsrt} (hperiod : 0 < rt.reqperiod) (hpos : 0 < rt.reqcount)
    (hmax : rt.reqcount ≤ 2 ^ 31 - 1) {db₀ : Db} (h₀ : ∀ ip, db₀.get (ipKey ip) = none)
    {h : List ConnEvent} {s : Sys Rai Server Bytes Int}
    (run : (connMachine .faithful rt).Run (Machine.init (Server.start db₀)) h s) :
    RateBounded rt h s := by
  have V := (outline_valid hperiod hpos hmax).strengthen (paced_keeps hperiod hmax)
  have hrest : (outline rt).Rest ⟨[], Server.start db₀⟩ := by
    refine ⟨rfl, fun ip e he => ?_, fun ip => List.nodup_nil,
      fun ip i hi => absurd hi (by simp [acceptedSince])⟩
    simp [Server.start, h₀ ip] at he
  have hpaced : Paced rt ⟨[], Server.start db₀⟩ := by
    intro ip
    refine ⟨.none, rfl, by simp [latest, lives], fun e he => ?_, by simp [lives]⟩
    simp [Server.start, h₀ ip] at he
  obtain ⟨-, hall⟩ : Counting rt ⟨h, s.shared⟩ ∧ Paced rt ⟨h, s.shared⟩ :=
    V.always ⟨hrest, hpaced⟩ run
  have hn : 0 < rt.reqcount.toNat := by omega
  refine ⟨fun ip ev hm hc => ?_, fun ip a => ?_⟩
  -- a period that begins with a life meets no other; any other meets two at most
  · obtain ⟨l, hl, hhead⟩ := BeginsAt.of_mem hm hc
    have hle : Expiry.within (period rt) (time ev) (lives (ipKey ip) h).flatten ≤
        rt.reqcount.toNat := (hall ip).lives.within_first hn l hl _ hhead
    exact atMost_of_within (by omega)
  · have hle : Expiry.within (period rt) a (lives (ipKey ip) h).flatten ≤
        2 * rt.reqcount.toNat - 1 := (hall ip).lives.within_le hn a
    exact atMost_of_within (by omega)

/-! ## A run across two windows -/

/-- What is asked of an event: whose it is, what it counts on, and when. -/
structure Stamp where
  tid : Option Nat
  key : Option Bytes
  time : Nat
deriving DecidableEq

def stamp (ev : ConnEvent) : Stamp := ⟨ev.tid, savedKey ev, time ev⟩

/-- A run on fixed inputs is read off its stamps. -/
theorem acceptedWithin_of_stamps {rt : Wsrt} {ip : Bytes} {a i : Nat} {h : List ConnEvent}
    {s : Sys Rai Server Bytes Int} {ts : List (Bytes × Option Int)}
    {es : List Stamp}
    (hts : s.threads.map (fun t => (t.req, t.code.answer?)) = ts) (hes : h.map stamp = es)
    (hi : ts[i]? = some (ip, some srIpAccept))
    (he : ∃ c, ⟨some i, some (ipKey ip), c⟩ ∈ es ∧ a ≤ c ∧ c < a + period rt) :
    AcceptedWithin rt ip a i h s := by
  constructor
  · rw [← hts, List.getElem?_map, Option.map_eq_some_iff] at hi
    obtain ⟨t, ht, heq⟩ := hi
    obtain ⟨hreq, hans⟩ := Prod.mk.inj heq
    exact ⟨t, ht, by rw [hreq], Prog.answer?_eq_some.mp hans⟩
  · obtain ⟨c, hc, hle, hlt⟩ := he
    rw [← hes, List.mem_map] at hc
    obtain ⟨ev, hev, heq⟩ := hc
    obtain ⟨htid, hkey, rfl⟩ := Stamp.mk.inj heq
    exact ⟨ev, hev, htid, hkey, hle, hlt⟩

/-- One connection that creates the counter, one just before it expires, and
    two just after. -/
def burstSchedule : List (Label Bytes Env Outcome) :=
  [.spawn (ascii "192.0.2.1"), .act 0 .answered, .act 0 .answered, .act 0 .answered,
    .act 0 .answered, .env (.tick 999), .spawn (ascii "192.0.2.1"), .act 1 .answered,
    .act 1 .answered, .act 1 .answered, .act 1 .answered, .env (.tick 1),
    .spawn (ascii "192.0.2.1"), .act 2 .answered, .act 2 .answered, .act 2 .answered,
    .act 2 .answered, .spawn (ascii "192.0.2.1"), .act 3 .answered, .act 3 .answered,
    .act 3 .answered, .act 3 .answered]

def burstKey : Option Bytes := some (ipKey (ascii "192.0.2.1"))

theorem follow_burst :
    ((connMachine .faithful twoPerSecond).follow
      (Machine.init (Server.start (.empty 0))) burstSchedule).map
        (fun p => (p.2.threads.map fun t => (t.req, t.code.answer?), p.1.map stamp)) =
    some (List.replicate 4 (ascii "192.0.2.1", some srIpAccept),
      [⟨some 0, none, 0⟩, ⟨some 0, burstKey, 0⟩, ⟨none, none, 0⟩, ⟨some 1, none, 999⟩,
        ⟨some 1, burstKey, 999⟩, ⟨none, none, 999⟩, ⟨some 2, none, 1000⟩,
        ⟨some 2, burstKey, 1000⟩, ⟨some 3, none, 1000⟩, ⟨some 3, burstKey, 1000⟩]) := by
  decide +kernel

theorem rate_bounded_burst :
    ∃ h s, (connMachine .faithful twoPerSecond).Run (Machine.init (Server.start (.empty 0))) h s ∧
      s.threads.map (·.code.answer?) = List.replicate 4 (some srIpAccept) ∧
      RateBounded twoPerSecond h s := by
  obtain ⟨h, s, run, hs⟩ := Machine.exists_run_of_follow follow_burst
  obtain ⟨hts, -⟩ := Prod.mk.inj hs
  refine ⟨h, s, run, ?_,
    rate_bounded (by decide) (by decide) (by decide) (fun _ => rfl) run⟩
  have hans := congrArg (List.map Prod.snd) hts
  simpa [Function.comp_def] using hans

/-- Three connections are accepted within a second, where the limit is two. -/
theorem burst_exceeds :
    ∃ h s, (connMachine .faithful twoPerSecond).Run (Machine.init (Server.start (.empty 0))) h s ∧
      ¬ ∀ ip, cString ip ≠ localhost → ∀ a, AtMost twoPerSecond ip a twoPerSecond.reqcount h s := by
  obtain ⟨h, s, run, hs⟩ := Machine.exists_run_of_follow follow_burst
  obtain ⟨hts, hes⟩ := Prod.mk.inj hs
  refine ⟨h, s, run, fun hall => ?_⟩
  have hall' : ∀ i ∈ [1, 2, 3], AcceptedWithin twoPerSecond (ascii "192.0.2.1") 999 i h s := by
    intro i hi
    simp only [List.mem_cons, List.not_mem_nil, or_false] at hi
    rcases hi with rfl | rfl | rfl
    · exact acceptedWithin_of_stamps hts hes rfl ⟨999, by simp [burstKey], by decide, by decide⟩
    · exact acceptedWithin_of_stamps hts hes rfl ⟨1000, by simp [burstKey], by decide, by decide⟩
    · exact acceptedWithin_of_stamps hts hes rfl ⟨1000, by simp [burstKey], by decide, by decide⟩
  have hthree := hall (ascii "192.0.2.1") (by decide +kernel) 999 [1, 2, 3] (by decide) hall'
  exact absurd hthree (by decide)

end Rate

end Webstore
