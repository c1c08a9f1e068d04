/-
  Webstore.Conn.Counted

  Whether an accepted connection was counted.  `check_ip` decides before it
  writes the counter, and `save_ip` tells nobody whether Redis wrote it: a
  connection is accepted uncounted when the SET or INCR of its check is
  refused, fails on what the counter holds, or gets lost.  When only the GET
  fails the check denies.
-/
import Webstore.Conn.Rule
import Webstore.Sched.Local

namespace Webstore

open Webstore.Libc Webstore.Sched

namespace Counted

/-- From `pre` to `post` the counter of `ip` was created with one connection,
    or one was added to it. -/
def CountedOn (ip : Bytes) (pre post : Db) : Prop :=
  match pre.get (ipKey ip) with
  | none => ∃ e, post.get (ipKey ip) = some e ∧ e.val = ascii "1"
  | some e => ∃ n, string2ll e.val = some n ∧
      post.get (ipKey ip) = some { e with val := ll2string (n + 1) }

/-- A SET or INCR. -/
def isWrite : ConnEvent → Bool
  | .op _ _ (.redisCommand (.set ..)) _ _ _ => true
  | .op _ _ (.redisCommand (.incr _)) _ _ _ => true
  | _ => false

/-- The counter writes of thread `i`. -/
def writes (i : Nat) (h : List ConnEvent) : List ConnEvent := (own i h).filter isWrite

/-- Redis answered a command with an error, or lost it and did nothing. -/
def Failed : ConnEvent → Prop
  | .op _ _ (.redisCommand _) v pre post =>
      (∃ msg, v = some (.error msg)) ∨ v = none ∧ post.db = pre.db
  | _ => False

/-- Thread `i` created the counter of `ip` or added to it. -/
def Counts (i : Nat) (ip : Bytes) (h : List ConnEvent) : Prop :=
  ∃ ev ∈ writes i h, CountedOn ip ev.pre.db ev.post.db

/-- The counter write of thread `i` failed. -/
def WriteFails (i : Nat) (h : List ConnEvent) : Prop := ∃ ev ∈ writes i h, Failed ev

/-! ## Writing a counter -/

/-- A number and the next are spelled differently. -/
theorem ll2string_succ_ne (n : Int) : ll2string (n + 1) ≠ ll2string n := by
  unfold ll2string
  intro h
  have hdigit : ∀ m, (45 : UInt8) ∉ decimal m := fun m hm => by
    have := decimal_digits m 45 hm
    exact absurd this (by decide)
  by_cases h₁ : n + 1 < 0
  · rw [if_pos h₁, if_pos (by omega)] at h
    have := decimal_injective (List.cons.inj h).2
    omega
  · by_cases h₀ : n < 0
    · rw [if_neg h₁, if_pos h₀] at h
      exact hdigit _ (h ▸ List.mem_cons_self)
    · rw [if_neg h₁, if_neg h₀] at h
      have := decimal_injective h
      omega

/-- What is left as it was is not counted. -/
theorem not_countedOn_self (ip : Bytes) (db : Db) : ¬ CountedOn ip db db := by
  unfold CountedOn
  cases hk : db.get (ipKey ip) with
  | none =>
      rintro ⟨e, he, -⟩
      cases he
  | some e =>
      rintro ⟨n, hn, he⟩
      unfold string2ll at hn
      split at hn
      · rename_i hcanon
        cases hn
        have hval : e.val = ll2string (readInt e.val + 1) :=
          congrArg Expiry.Entry.val (Option.some.inj he)
        exact ll2string_succ_ne _ (hval.symm.trans hcanon.2.2.symm)
      · cases hn

/-- The write of a check counts, or it is answered with an error and changes nothing. -/
theorem execute_save {ip : Bytes} {found : Bool} (period : Int) {db : Db}
    (h : found = false → db.get (ipKey ip) = none) :
    (CountedOn ip db (execute db (saveCommand ip found period)).2 ∧
      ∀ msg, (execute db (saveCommand ip found period)).1 ≠ .error msg) ∨
    ((execute db (saveCommand ip found period)).2 = db ∧
      ∃ msg, (execute db (saveCommand ip found period)).1 = .error msg) := by
  cases found with
  | false =>
      have hk := h rfl
      have hcmd : saveCommand ip false period =
          .set (ipKey ip) (ascii "1") (some period.toNat) false := rfl
      rw [hcmd]
      rcases execute_set_cases db (ipKey ip) (ascii "1") (some period.toNat) false with
        ⟨-, msg, hx⟩ | ⟨-, hnx, -, -⟩ | ⟨hex, -, hx⟩
      · rw [hx]
        exact .inr ⟨rfl, msg, rfl⟩
      · cases hnx
      · rw [hx]
        refine .inl ⟨?_, by simp⟩
        simp only [CountedOn, hk]
        exact ⟨_, Expiry.Map.get_put_self _ _ (live_deadlineAfter hex), rfl⟩
  | true =>
      have hcmd : saveCommand ip true period = .incr (ipKey ip) := rfl
      rw [hcmd]
      cases hk : db.get (ipKey ip) with
      | none =>
          -- the counter expired in between, and INCR creates it again
          rw [execute_incr_none hk]
          refine .inl ⟨?_, by simp⟩
          simp only [CountedOn, hk]
          exact ⟨_, Expiry.Map.get_put_self _ _ rfl, rfl⟩
      | some e =>
          have hx : execute db (.incr (ipKey ip)) = incrEntry db (ipKey ip) e := by
            simp [execute, hk]
          rw [hx]
          unfold incrEntry
          split
          · exact .inr ⟨rfl, _, rfl⟩
          · rename_i n hn
            split
            · refine .inl ⟨?_, by simp⟩
              simp only [CountedOn, hk]
              exact ⟨n, hn, Expiry.Map.get_put_self _ _ (db.live _ e hk)⟩
            · exact .inr ⟨rfl, _, rfl⟩

/-- Whatever becomes of the write, it counts unless it fails. -/
theorem countedOn_iff {i : Nat} {ip : Bytes} {found : Bool} (period : Int) {s : Server}
    (out : Outcome) (h : found = false → s.db.get (ipKey ip) = none) :
    CountedOn ip s.db (s.command (saveCommand ip found period) out).2.db ↔
      ¬ Failed (connEvent i ip (saveCommand ip found period)
        (s.command (saveCommand ip found period) out).1 s
        (s.command (saveCommand ip found period) out).2) := by
  have hsame := not_countedOn_self ip s.db
  rcases s.command_cases (saveCommand ip found period) out with
    ⟨-, hx⟩ | ⟨-, hx⟩ | ⟨-, msg, hx⟩ | ⟨-, db', hdb', hx⟩
  -- the context is broken; executed; refused; lost, with its effect or without
  · rw [hx]
    exact iff_of_false hsame (not_not_intro (.inr ⟨rfl, rfl⟩))
  · rw [hx]
    rcases execute_save period h with ⟨hc, hok⟩ | ⟨hdb, msg, hmsg⟩
    · refine iff_of_true hc ?_
      rintro (⟨msg, hmsg⟩ | ⟨hmsg, -⟩)
      · exact hok msg (Option.some.inj hmsg)
      · cases hmsg
    · refine iff_of_false ?_ (not_not_intro (.inl ⟨msg, congrArg some hmsg⟩))
      simpa only [hdb] using hsame
  · rw [hx]
    exact iff_of_false hsame (not_not_intro (.inl ⟨msg, rfl⟩))
  · rw [hx]
    have hkept : db' = s.db → (CountedOn ip s.db db' ↔ ¬ Failed (connEvent i ip
        (saveCommand ip found period) none s { s with db := db', broken := true })) := by
      rintro rfl
      exact iff_of_false hsame (not_not_intro (.inr ⟨rfl, rfl⟩))
    rcases hdb' with rfl | hdb'
    · rcases execute_save period h with ⟨hc, -⟩ | ⟨hdb, -⟩
      · refine iff_of_true hc ?_
        rintro (⟨msg, hmsg⟩ | ⟨-, hdb⟩)
        · cases hmsg
        · exact hsame (by rwa [show (execute s.db _).2 = s.db from hdb] at hc)
      · exact hkept hdb
    · exact hkept hdb'

/-! ## The outline -/

/-- How a check ended: it denied without a write, or accepted with one. -/
def Settled (i : Nat) (ip : Bytes) (a : Int) (h : List ConnEvent) : Prop :=
  (a = srIpDeny ∧ writes i h = []) ∨
  (a = srIpAccept ∧ ∃ ev, writes i h = [ev] ∧ (CountedOn ip ev.pre.db ev.post.db ↔ ¬ Failed ev))

theorem writes_concat_ne {i : Nat} {ev : ConnEvent} (hev : ev.tid ≠ some i) (h : List ConnEvent) :
    writes i (h ++ [ev]) = writes i h := by
  have hown : own i [ev] = [] := own_of_ne (by simpa using hev)
  rw [writes, own_append, hown, List.append_nil, writes]

theorem writes_concat_self {i : Nat} {ev : ConnEvent} (hev : ev.tid = some i)
    (h : List ConnEvent) :
    writes i (h ++ [ev]) = writes i h ++ if isWrite ev then [ev] else [] := by
  have hown : own i [ev] = [ev] := by simp [own, hev]
  rw [writes, own_append, hown, List.filter_append, ← writes]
  cases hw : isWrite ev <;> simp [hw]

theorem writes_fresh {i : Nat} {w : ConnWorld} (hf : w.Fresh i) : writes i w.hist = [] := by
  rw [writes, own_of_ne hf]
  rfl

/-- A check between its two commands. -/
structure Pending (i : Nat) (ip : Bytes) (found : Bool) (w : ConnWorld) : Prop where
  remote : cString ip ≠ localhost
  unwritten : writes i w.hist = []
  absent : found = false → w.shared.db.get (ipKey ip) = none

/-- The outline of the checks on a Redis that may fail. -/
def outline : ConnOutline where
  Always _ := True
  Rest _ := True
  Pending := Pending
  Failing i ip a w := cString ip ≠ localhost → Settled i ip a w.hist
  Post i ip a w := cString ip ≠ localhost → Settled i ip a w.hist

/-- What others do does not change what a check has written. -/
theorem Settled.push {i : Nat} {ip : Bytes} {a : Int} {w : ConnWorld} {ev : ConnEvent}
    (h : Settled i ip a w.hist) (hev : ev.tid ≠ some i ∨ isWrite ev = false) :
    Settled i ip a (w.push ev).hist := by
  have hwrites : writes i (w.hist ++ [ev]) = writes i w.hist := by
    by_cases htid : ev.tid = some i
    · rw [writes_concat_self htid, hev.resolve_left (not_not_intro htid)]
      exact List.append_nil _
    · exact writes_concat_ne htid _
  unfold Settled
  rw [World.push_hist, hwrites]
  exact h

/-- A GET denies, or leaves a write to be made. -/
theorem get_step {rt : Wsrt} {i : Nat} {ip : Bytes} {w : ConnWorld} {out : Outcome}
    (hip : cString ip ≠ localhost) (hf : w.Fresh i) :
    outline.AfterRead rt i ip
      (afterConn w i ip (.get (ipKey ip)) (w.shared.command (.get (ipKey ip)) out))
      (w.shared.command (.get (ipKey ip)) out).1 := by
  have hunwritten : ∀ v post,
      writes i (afterConn w i ip (.get (ipKey ip)) (v, post)).hist = [] := by
    intro v post
    rw [World.push_hist, writes_concat_self rfl, writes_fresh hf]
    rfl
  have hdeny : ∀ v post,
      Settled i ip srIpDeny (afterConn w i ip (.get (ipKey ip)) (v, post)).hist :=
    fun v post => .inl ⟨rfl, hunwritten v post⟩
  -- a counter that was not found is absent
  have habsent : (w.shared.command (.get (ipKey ip)) out).1 = some .nil →
      (w.shared.command (.get (ipKey ip)) out).2.db.get (ipKey ip) = none := by
    intro hreply
    rcases Server.command_reply hreply with ⟨msg, hmsg⟩ | ⟨hs, hdb⟩
    · cases hmsg
    · rw [hdb, execute_get]
      cases hk : w.shared.db.get (ipKey ip) with
      | none => rfl
      | some e =>
          rw [execute_get_some hk] at hs
          cases hs
  generalize w.shared.command (.get (ipKey ip)) out = vs at habsent ⊢
  obtain ⟨v, post⟩ := vs
  rcases v with - | (str | - | str | n | str)
  · exact fun _ => hdeny _ _
  · simp only [ConnOutline.AfterRead]
    split
    · exact ⟨hip, hunwritten _ _, fun h => by cases h⟩
    · exact ⟨trivial, fun _ => hdeny _ _⟩
  · exact ⟨hip, hunwritten _ _, fun _ => habsent rfl⟩
  · exact ⟨trivial, fun _ => hdeny _ _⟩
  · exact ⟨trivial, fun _ => hdeny _ _⟩
  · exact ⟨trivial, fun _ => hdeny _ _⟩

/-- The write counts, or fails. -/
theorem save_step {rt : Wsrt} {i : Nat} {ip : Bytes} {found : Bool} {w : ConnWorld} {out : Outcome}
    (h : Pending i ip found w) :
    outline.AfterSave i ip
      (afterConn w i ip (saveCommand ip found rt.reqperiod)
        (w.shared.command (saveCommand ip found rt.reqperiod) out))
      (w.shared.command (saveCommand ip found rt.reqperiod) out).1 := by
  have hcount := countedOn_iff (i := i) rt.reqperiod out h.absent
  generalize w.shared.command (saveCommand ip found rt.reqperiod) out = vs at hcount ⊢
  -- found or not, the command is a write, and the only one of the check
  have hwrite : isWrite (connEvent i ip (saveCommand ip found rt.reqperiod) vs.1 w.shared vs.2) =
      true := by cases found <;> rfl
  have hsettled : Settled i ip srIpAccept
      (afterConn w i ip (saveCommand ip found rt.reqperiod) vs).hist := by
    have hwrites : writes i (afterConn w i ip (saveCommand ip found rt.reqperiod) vs).hist =
        [connEvent i ip (saveCommand ip found rt.reqperiod) vs.1 w.shared vs.2] := by
      rw [World.push_hist, writes_concat_self rfl, hwrite, h.unwritten]
      rfl
    exact .inr ⟨rfl, _, hwrites, hcount⟩
  obtain ⟨v, post⟩ := vs
  cases v with
  | none => exact fun _ => hsettled
  | some reply => exact ⟨trivial, fun _ => hsettled⟩

/-- Checks go by this outline whatever Redis does. -/
theorem outline_valid (rt : Wsrt) (P : Policy) : outline.Valid rt P where
  always_of_rest _ := trivial
  always_of_pending _ := trivial
  always_of_failing _ := trivial
  rest_env _ _ := trivial
  pending_env := by
    intro i ip found w e σ' h he
    refine ⟨h.remote, ?_, fun hn => ?_⟩
    · rw [World.push_hist, writes_concat_ne (by simp)]
      exact h.unwritten
    -- the environment makes no entry: what was absent stays so
    · rw [Option.eq_none_iff_forall_ne_some]
      intro en hen
      have := (Server.env_frame he).2 _ _ hen
      rw [h.absent hn] at this
      cases this
  failing_env h _ hip := (h hip).push (.inl (by simp))
  post_push h hev hip := (h hip).push (.inl hev)
  local_post hip _ _ hremote := absurd hip hremote
  get_step hip _ hf _ := get_step hip hf
  save_step h _ := save_step h
  error_step := fun h => ⟨trivial, fun hip => (h hip).push (.inr rfl)⟩

/-- A check accepts only what it counts, unless its write fails. -/
theorem accepted_counted_iff {rt : Wsrt} (db₀ : Db) {h : List ConnEvent}
    {s : Sys Rai Server Bytes Int}
    (run : (connMachine .anything rt).Run (Machine.init (Server.start db₀)) h s) {i : Nat}
    {t : Thread Rai Bytes Int} {a : Int} (ht : s.threads[i]? = some t) (ha : t.code = .done a)
    (hip : cString t.req ≠ localhost) :
    (a = srIpAccept ∧ Counts i t.req h ∨ a = srIpDeny) ↔ ¬ WriteFails i h := by
  have hrest : outline.Rest ⟨[], Server.start db₀⟩ := trivial
  have hpost : Settled i t.req a h :=
    (outline_valid rt .anything).answered hrest run ht ha hip
  unfold Counts WriteFails
  -- denied without a write, or accepted after one that counts or fails
  rcases hpost with ⟨rfl, hw⟩ | ⟨rfl, ev, hw, hev⟩
  · simp [hw]
  · rw [hw]
    simp only [List.mem_singleton, exists_eq_left, hev]
    constructor
    · rintro (⟨-, hno⟩ | hdeny)
      · exact hno
      · cases hdeny
    · exact fun hno => .inl ⟨trivial, hno⟩

/-- One connection a minute. -/
def onePerMinute : Wsrt := ⟨true, 60, 1, 0, 0, false, false⟩

/-- Two checks of one address; the second write is never sent. -/
def minuteSchedule : List (Label Bytes Env Outcome) :=
  [.spawn (ascii "192.0.2.1"), .spawn (ascii "192.0.2.1"), .act 0 .answered, .act 0 .answered,
    .act 0 .answered, .act 0 .answered, .act 1 .answered, .act 1 .answered, .act 1 .answered]

/-- The first of them counts, as its write does not fail. -/
theorem accepted_counted_minute :
    ∃ h s t, (connMachine .anything onePerMinute).Run (Machine.init (Server.start (.empty 0))) h s ∧
      s.threads.map (·.code.answer?) = [some srIpAccept, some srIpDeny] ∧
      s.threads[0]? = some t ∧ (Counts 0 t.req h ↔ ¬ WriteFails 0 h) := by
  have hrun : ((connMachine .anything onePerMinute).follow
      (Machine.init (Server.start (.empty 0))) minuteSchedule).map
        (fun p => (p.2.threads.map (·.code.answer?), p.2.threads.map (·.req))) =
      some ([some srIpAccept, some srIpDeny], [ascii "192.0.2.1", ascii "192.0.2.1"]) := by
    decide +kernel
  obtain ⟨h, s, run, hs⟩ := Machine.exists_run_of_follow hrun
  obtain ⟨hans, hreqs⟩ := Prod.mk.inj hs
  obtain ⟨t, ht, ha⟩ := Machine.answered_of_map (i := 0) hans rfl
  have hreq : t.req = ascii "192.0.2.1" := by
    have := congrArg (·[0]?) hreqs
    simpa [ht] using this
  have hip : cString t.req ≠ localhost := by
    rw [hreq]
    decide +kernel
  have hiff := accepted_counted_iff _ run ht ha hip
  -- the first check was not denied
  have hne : srIpAccept ≠ srIpDeny := by decide
  rw [or_iff_left hne, and_iff_right rfl] at hiff
  exact ⟨h, s, t, run, hans, ht, hiff⟩

/-- A check whose SET is refused. -/
def oomSchedule : List (Label Bytes Env Outcome) :=
  [.spawn (ascii "192.0.2.1"), .act 0 .answered, .act 0 .answered,
    .act 0 (.refused (ascii "OOM command not allowed")), .act 0 .answered]

/-- It accepts, and has counted nothing. -/
theorem refused_write_accepted :
    ∃ h s, (connMachine .anything onePerMinute).Run (Machine.init (Server.start (.empty 0))) h s ∧
      s.threads.map (·.code.answer?) = [some srIpAccept] ∧
      ¬ Counts 0 (ascii "192.0.2.1") h := by
  have hrun : ((connMachine .anything onePerMinute).follow
      (Machine.init (Server.start (.empty 0))) oomSchedule).map
        (fun p => (p.2.threads.map (·.code.answer?), (writes 0 p.1).map fun ev =>
          ((ev.pre.db.get (ipKey (ascii "192.0.2.1"))).map (·.val),
            (ev.post.db.get (ipKey (ascii "192.0.2.1"))).map (·.val)))) =
      some ([some srIpAccept], [(none, none)]) := by decide +kernel
  obtain ⟨h, s, run, hs⟩ := Machine.exists_run_of_follow hrun
  obtain ⟨hans, hwrites⟩ := Prod.mk.inj hs
  refine ⟨h, s, run, hans, ?_⟩
  rintro ⟨ev, hev, hcount⟩
  have hmem := List.mem_map_of_mem (f := fun ev : ConnEvent =>
    ((ev.pre.db.get (ipKey (ascii "192.0.2.1"))).map (·.val),
      (ev.post.db.get (ipKey (ascii "192.0.2.1"))).map (·.val))) hev
  rw [hwrites, List.mem_singleton] at hmem
  obtain ⟨hpre, hpost⟩ := Prod.mk.inj hmem
  rw [Option.map_eq_none_iff] at hpre hpost
  simp [CountedOn, hpre, hpost] at hcount

end Counted

end Webstore
