/-
  Webstore.Conn.Rule

  What a connection check does from its first command to its answer, and the
  proof rule for it.  A `ConnOutline` says what holds while no check is in its
  section, what holds between the two commands of one that is, what holds of
  one that got no reply, and what holds of every answer.  Both ways of running
  checks are covered: in the RAI lock, and one at a time.
-/
import Webstore.Conn
import Webstore.Node.Flow
import Webstore.Sched.Outline

namespace Webstore

open Webstore.Libc Webstore.Sched

/-! ## The form of a check -/

/-- The rest of a check once its second reply is there. -/
def afterSave (rt : Wsrt) : Option Reply → Prog Rai Int
  | none => .op (S := Rai) .handleRedisError fun _ => leave rt srIpAccept
  | some _ => leave rt srIpAccept

/-- The second command of a check that accepts. -/
def saveStep (rt : Wsrt) (ip : Bytes) (found : Bool) : Prog Rai Int :=
  .op (S := Rai) (.redisCommand (saveCommand ip found rt.reqperiod)) (afterSave rt)

/-- The rest of a check once its first reply is there. -/
def afterRead (rt : Wsrt) (ip : Bytes) : Option Reply → Prog Rai Int
  | none => .op (S := Rai) .handleRedisError fun _ => leave rt srIpDeny
  | some .nil => saveStep rt ip false
  | some (.string str) =>
      if atoi (cString str) < rt.reqcount then saveStep rt ip true else leave rt srIpDeny
  | some _ => leave rt srIpDeny

/-- A check from its first command on. -/
def checkSection (rt : Wsrt) (ip : Bytes) : Prog Rai Int :=
  .op (S := Rai) (.redisCommand (.get (ipKey ip))) (afterRead rt ip)

/-- What `allow_ip` and `ws_addr_check` do with the verdict of `check_ip`. -/
def conclude (rt : Wsrt) (retval : Int) : Prog Rai Int :=
  leave rt (if retval = 0 then srIpDeny else srIpAccept)

/-- `check_ip` and what follows it are the section of the check. -/
theorem checkIp_conclude (rt : Wsrt) (ip : Bytes) :
    (checkIp rt ip >>= conclude rt) = checkSection rt ip := by
  -- both branches that admit end with the same save
  have hsave : ∀ found, ((saveIp ip found rt.reqperiod >>= fun _ => pure 1) >>= conclude rt) =
      saveStep rt ip found := by
    intro found
    simp only [saveIp, redisCommand_bind, Prog.op_bind, saveStep]
    congr 1
    funext v
    cases v <;> rfl
  simp only [checkIp, redisCommand_bind, Prog.op_bind, checkSection]
  congr 1
  funext v
  -- no reply, then the kinds of a reply: string, nil, status, integer, error
  rcases v with - | (str | - | str | n | str)
  · rfl
  · simp only [afterRead]
    split
    · exact hsave true
    · rfl
  · exact hsave false
  · rfl
  · rfl
  · rfl

/-- Every check has this form. -/
theorem wsAddrCheck_eq (rt : Wsrt) (ip : Bytes) :
    wsAddrCheck rt ip =
      if cString ip = localhost then .done srIpAccept
      else if rt.multithreaded then .lock (checkSection rt ip) else checkSection rt ip := by
  unfold wsAddrCheck
  by_cases hlocal : cString ip = localhost
  · simp only [hlocal, if_true]
    rfl
  · simp only [if_neg hlocal, ← checkIp_conclude]
    cases hm : rt.multithreaded with
    | true =>
        simp only [allowIp, hm, if_true, raiLock_bind, Prog.lock_bind, Prog.bind_assoc,
          raiUnlock_bind, Prog.unlock_bind]
        congr 2
        -- the count that comes back decides the answer, after the lock is released
        funext z
        simp only [conclude, leave, hm, if_true]
        by_cases hz : z = 0 <;> simp [hz]
    | false =>
        simp only [allowIp, hm, Bool.false_eq_true, if_false, Prog.bind_assoc]
        congr 1
        funext z
        simp only [conclude, leave, hm, Bool.false_eq_true, if_false]
        by_cases hz : z = 0 <;> simp [hz]

/-! ## The rule -/

abbrev ConnEvent := Event Rai Server Bytes Env

abbrev ConnWorld := World Rai Server Bytes Env

/-- The event of a command. -/
@[reducible] def connEvent (i : Nat) (ip : Bytes) (c : Cmd) (v : Option Reply)
    (pre post : Server) : ConnEvent :=
  .op (S := Rai) i ip (.redisCommand c) v pre post

/-- The world after a command. -/
@[reducible] def afterConn (w : ConnWorld) (i : Nat) (ip : Bytes) (c : Cmd)
    (vs : Option Reply × Server) : ConnWorld :=
  w.push (connEvent i ip c vs.1 w.shared vs.2)

/-- What is claimed at each point of a check. -/
structure ConnOutline where
  Always : ConnWorld → Prop
  Rest : ConnWorld → Prop
  Pending : Nat → Bytes → Bool → ConnWorld → Prop
  Failing : Nat → Bytes → Int → ConnWorld → Prop
  Post : Nat → Bytes → Int → ConnWorld → Prop

namespace ConnOutline

variable (N : ConnOutline) (rt : Wsrt)

/-- What has to hold once the counter was read. -/
def AfterRead (i : Nat) (ip : Bytes) (w : ConnWorld) : Option Reply → Prop
  | none => N.Failing i ip srIpDeny w
  | some .nil => N.Pending i ip false w
  | some (.string str) =>
      if atoi (cString str) < rt.reqcount then N.Pending i ip true w
      else N.Rest w ∧ N.Post i ip srIpDeny w
  | some _ => N.Rest w ∧ N.Post i ip srIpDeny w

/-- What has to hold once the counter was written. -/
def AfterSave (i : Nat) (ip : Bytes) (w : ConnWorld) : Option Reply → Prop
  | none => N.Failing i ip srIpAccept w
  | some _ => N.Rest w ∧ N.Post i ip srIpAccept w

/-- The obligations, one command at a time. -/
structure Valid (P : Policy) : Prop where
  always_of_rest : ∀ {w}, N.Rest w → N.Always w
  always_of_pending : ∀ {i ip found w}, N.Pending i ip found w → N.Always w
  always_of_failing : ∀ {i ip a w}, N.Failing i ip a w → N.Always w
  rest_env : ∀ {w e σ'}, N.Rest w → Server.env P e w.shared = some σ' →
    N.Rest (w.push (.env e w.shared σ'))
  pending_env : ∀ {i ip found w e σ'}, N.Pending i ip found w →
    Server.env P e w.shared = some σ' → N.Pending i ip found (w.push (.env e w.shared σ'))
  failing_env : ∀ {i ip a w e σ'}, N.Failing i ip a w → Server.env P e w.shared = some σ' →
    N.Failing i ip a (w.push (.env e w.shared σ'))
  post_push : ∀ {i ip a w ev}, N.Post i ip a w → ev.tid ≠ some i → N.Post i ip a (w.push ev)
  local_post : ∀ {i ip w}, cString ip = localhost → N.Always w → w.Fresh i →
    N.Post i ip srIpAccept w
  get_step : ∀ {i ip w out}, cString ip ≠ localhost → N.Rest w → w.Fresh i →
    P.outcome out = true →
    N.AfterRead rt i ip
      (afterConn w i ip (.get (ipKey ip)) (w.shared.command (.get (ipKey ip)) out))
      (w.shared.command (.get (ipKey ip)) out).1
  save_step : ∀ {i ip found w out}, N.Pending i ip found w → P.outcome out = true →
    N.AfterSave i ip
      (afterConn w i ip (saveCommand ip found rt.reqperiod)
        (w.shared.command (saveCommand ip found rt.reqperiod) out))
      (w.shared.command (saveCommand ip found rt.reqperiod) out).1
  error_step : ∀ {i ip a w}, N.Failing i ip a w →
    N.Rest (w.push (.op (S := Rai) i ip .handleRedisError () w.shared w.shared.stop)) ∧
      N.Post i ip a (w.push (.op (S := Rai) i ip .handleRedisError () w.shared w.shared.stop))

/-- Where a thread can stand in its check. -/
inductive InCheck (i : Nat) (ip : Bytes) : Prog Rai Int → ConnWorld → Prop where
  | start {w : ConnWorld} (hip : cString ip ≠ localhost) (hw : N.Rest w) (hf : w.Fresh i) :
      InCheck i ip (checkSection rt ip) w
  | pending {found : Bool} {w : ConnWorld} (hw : N.Pending i ip found w) :
      InCheck i ip (saveStep rt ip found) w
  | failing {a : Int} {w : ConnWorld} (hw : N.Failing i ip a w) :
      InCheck i ip (.op (S := Rai) .handleRedisError fun _ => leave rt a) w
  | finish {a : Int} {p : Prog Rai Int} {w : ConnWorld} (hp : p = leave rt a) (hw : N.Rest w)
      (ha : N.Post i ip a w) : InCheck i ip p w

/-- The outline of the machine. -/
def outline (P : Policy) : Outline (connMachine P rt) where
  I := N.Always
  J := N.Rest
  A := N.InCheck rt
  Post := N.Post

variable {N rt} {P : Policy}

theorem inCheck_afterSave {i : Nat} {ip : Bytes} {w : ConnWorld} {v : Option Reply}
    (h : N.AfterSave i ip w v) : N.InCheck rt i ip (afterSave rt v) w := by
  cases v with
  | none => exact .failing h
  | some reply => exact .finish rfl h.1 h.2

/-- Behind the GET there is an answer, or a write to be made. -/
theorem inCheck_afterRead {i : Nat} {ip : Bytes} {w : ConnWorld} {v : Option Reply}
    (h : N.AfterRead rt i ip w v) : N.InCheck rt i ip (afterRead rt ip v) w := by
  rcases v with - | (str | - | str | n | str)
  · exact .failing h
  · simp only [AfterRead] at h
    simp only [afterRead]
    split
    · rename_i hlt
      rw [if_pos hlt] at h
      exact .pending h
    · rename_i hlt
      rw [if_neg hlt] at h
      exact .finish rfl h.1 h.2
  · exact .pending h
  · exact .finish rfl h.1 h.2
  · exact .finish rfl h.1 h.2
  · exact .finish rfl h.1 h.2

/-- A command of the check that is in its section. -/
theorem Valid.section_op (V : N.Valid rt P) {i : Nat} {ip : Bytes} {o : RaiOp}
    {k : RaiOp.Ret o → Prog Rai Int} {w : ConnWorld} {c : Outcome} {v : RaiOp.Ret o}
    {σ' : Server} (h : N.InCheck rt i ip (.op (S := Rai) o k) w)
    (hx : Server.exec P o w.shared c = some (v, σ')) :
    N.InCheck rt i ip (k v)
      (if RaiOp.observed o then w.push (.op (S := Rai) i ip o v w.shared σ') else w) := by
  cases h with
  | start hip hw hf =>
      simp only [Server.exec, Option.ite_none_right_eq_some, Option.some.injEq] at hx
      obtain ⟨hout, hvs⟩ := hx
      -- the `GET` of the counter
      have := inCheck_afterRead (V.get_step hip hw hf hout)
      rw [hvs] at this
      exact this
  | pending hw =>
      simp only [Server.exec, Option.ite_none_right_eq_some, Option.some.injEq] at hx
      obtain ⟨hout, hvs⟩ := hx
      -- the `INCR` or the `SET` that saves the visit
      have : N.InCheck rt i ip _ _ := inCheck_afterSave (V.save_step hw hout)
      rw [hvs] at this
      exact this
  | failing hw =>
      cases hx
      obtain ⟨hr, hp⟩ := V.error_step hw
      exact .finish rfl hr hp
  | finish hp =>
      rcases leave_cases hp with ⟨-, hk⟩ | ⟨-, hk⟩ <;> cases hk

/-- A check starts as the outline wants it: it is let through, or it reads in a
    section. -/
theorem Valid.starts (V : N.Valid rt P) (i : Nat) (ip : Bytes) :
    (N.outline rt P).Starts i ip (wsAddrCheck rt ip) := by
  unfold Outline.Starts
  rw [wsAddrCheck_eq]
  -- the local host is let in with no section at all
  by_cases hip : cString ip = localhost
  · rw [if_pos hip]
    split
    · exact .done fun w hw hf => V.local_post hip hw hf
    · refine ⟨fun a ha w hw hf => ?_, fun hd => by cases hd⟩
      cases ha
      exact V.local_post hip hw hf
  · rw [if_neg hip]
    split
    · rename_i hm
      have hm' : rt.multithreaded = true := hm
      rw [if_pos hm']
      exact .lock fun w hw hf => .start hip hw hf
    · rename_i hm
      have hm' : ¬ rt.multithreaded = true := hm
      rw [if_neg hm']
      exact ⟨fun a ha => (by cases ha), fun _ w hw hf => .start hip hw hf⟩

/-- The rule: the obligations make the outline valid. -/
theorem Valid.outline (V : N.Valid rt P) : (N.outline rt P).Valid where
  quiet := Server.exec_quiet
  always_of_rest := V.always_of_rest
  always_of_section := by
    intro i ip p w h
    cases h with
    | start _ hw _ => exact V.always_of_rest hw
    | pending hw => exact V.always_of_pending hw
    | failing hw => exact V.always_of_failing hw
    | finish _ hw _ => exact V.always_of_rest hw
  rest_env := V.rest_env
  section_env := by
    intro i ip p w e σ' h he
    cases h with
    | start hip hw hf => exact .start hip (V.rest_env hw he) (hf.push (by simp))
    | pending hw => exact .pending (V.pending_env hw he)
    | failing hw => exact .failing (V.failing_env hw he)
    | finish hp hw ha => exact .finish hp (V.rest_env hw he) (V.post_push ha (by simp))
  post_push := V.post_push
  starts := V.starts
  section_op := V.section_op
  section_unlock := by
    intro i ip k w h
    cases h with
    | finish hp hw ha =>
        -- with threads the lock is given back; without, the check has answered
        rcases leave_cases hp with ⟨hm, hk⟩ | ⟨-, hk⟩
        · cases hk
          exact ⟨hm, _, rfl, hw, ha⟩
        · cases hk
  section_done := by
    intro i ip a w h
    cases h with
    | finish hp hw ha =>
        rcases leave_cases hp with ⟨-, hk⟩ | ⟨hm, hk⟩
        · cases hk
        · cases hk
          exact ⟨hm, hw, ha⟩
  section_lock := by
    intro i ip k w h
    cases h with
    | finish hp =>
        rcases leave_cases hp with ⟨-, hk⟩ | ⟨-, hk⟩ <;> cases hk

/-- What a check outline says of every run. -/
theorem Valid.holds (V : N.Valid rt P) {s₀ : Server} (h₀ : N.Rest ⟨[], s₀⟩)
    {h : List ConnEvent} {s : Sys Rai Server Bytes Int}
    (run : (connMachine P rt).Run (Machine.init s₀) h s) : (N.outline rt P).Holds h s :=
  Outline.holds_of_run V.outline h₀ run

theorem Valid.always (V : N.Valid rt P) {s₀ : Server} (h₀ : N.Rest ⟨[], s₀⟩)
    {h : List ConnEvent} {s : Sys Rai Server Bytes Int}
    (run : (connMachine P rt).Run (Machine.init s₀) h s) : N.Always ⟨h, s.shared⟩ :=
  (V.holds h₀ run).always V.outline

theorem Valid.answered (V : N.Valid rt P) {s₀ : Server} (h₀ : N.Rest ⟨[], s₀⟩)
    {h : List ConnEvent} {s : Sys Rai Server Bytes Int}
    (run : (connMachine P rt).Run (Machine.init s₀) h s) {i : Nat} {t : Thread Rai Bytes Int}
    {a : Int} (ht : s.threads[i]? = some t) (ha : t.code = .done a) :
    N.Post i t.req a ⟨h, s.shared⟩ :=
  (V.holds h₀ run).answered V.outline ht ha

/-! ## One more invariant -/

/-- The outline with `Q` at every point of a check. -/
def strengthen (N : ConnOutline) (Q : ConnWorld → Prop) : ConnOutline where
  Always w := N.Always w ∧ Q w
  Rest w := N.Rest w ∧ Q w
  Pending i ip found w := N.Pending i ip found w ∧ Q w
  Failing i ip a w := N.Failing i ip a w ∧ Q w
  Post := N.Post

/-- Every step that the outline allows keeps `Q`. -/
structure Keeps (N : ConnOutline) (rt : Wsrt) (P : Policy) (Q : ConnWorld → Prop) : Prop where
  env : ∀ {w e σ'}, Q w → Server.env P e w.shared = some σ' → Q (w.push (.env e w.shared σ'))
  get : ∀ {i ip w out}, N.Rest w → Q w → P.outcome out = true →
    Q (afterConn w i ip (.get (ipKey ip)) (w.shared.command (.get (ipKey ip)) out))
  save : ∀ {i ip found w out}, N.Pending i ip found w → Q w → P.outcome out = true →
    Q (afterConn w i ip (saveCommand ip found rt.reqperiod)
      (w.shared.command (saveCommand ip found rt.reqperiod) out))
  error : ∀ {i ip a w}, N.Failing i ip a w → Q w →
    Q (w.push (.op (S := Rai) i ip .handleRedisError () w.shared w.shared.stop))

/-- What holds anyway may be added to what a GET leaves. -/
theorem afterRead_strengthen {Q : ConnWorld → Prop} {i : Nat} {ip : Bytes} {w : ConnWorld}
    {v : Option Reply} (h : N.AfterRead rt i ip w v) (hQ : Q w) :
    (N.strengthen Q).AfterRead rt i ip w v := by
  rcases v with - | (str | - | str | n | str)
  · exact ⟨h, hQ⟩
  · simp only [AfterRead] at h ⊢
    split
    · rename_i hlt
      rw [if_pos hlt] at h
      exact ⟨h, hQ⟩
    · rename_i hlt
      rw [if_neg hlt] at h
      exact ⟨⟨h.1, hQ⟩, h.2⟩
  · exact ⟨h, hQ⟩
  · exact ⟨⟨h.1, hQ⟩, h.2⟩
  · exact ⟨⟨h.1, hQ⟩, h.2⟩
  · exact ⟨⟨h.1, hQ⟩, h.2⟩

theorem afterSave_strengthen {Q : ConnWorld → Prop} {i : Nat} {ip : Bytes} {w : ConnWorld}
    {v : Option Reply} (h : N.AfterSave i ip w v) (hQ : Q w) :
    (N.strengthen Q).AfterSave i ip w v := by
  cases v with
  | none => exact ⟨h, hQ⟩
  | some reply => exact ⟨⟨h.1, hQ⟩, h.2⟩

/-- An invariant that the steps of a valid outline keep can be added to it. -/
theorem Valid.strengthen (V : N.Valid rt P) {Q : ConnWorld → Prop} (K : N.Keeps rt P Q) :
    (N.strengthen Q).Valid rt P where
  always_of_rest h := ⟨V.always_of_rest h.1, h.2⟩
  always_of_pending h := ⟨V.always_of_pending h.1, h.2⟩
  always_of_failing h := ⟨V.always_of_failing h.1, h.2⟩
  rest_env h he := ⟨V.rest_env h.1 he, K.env h.2 he⟩
  pending_env h he := ⟨V.pending_env h.1 he, K.env h.2 he⟩
  failing_env h he := ⟨V.failing_env h.1 he, K.env h.2 he⟩
  post_push := V.post_push
  local_post hip h hf := V.local_post hip h.1 hf
  get_step hip h hf hout := afterRead_strengthen (V.get_step hip h.1 hf hout) (K.get h.1 h.2 hout)
  save_step h hout := afterSave_strengthen (V.save_step h.1 hout) (K.save h.1 h.2 hout)
  error_step h :=
    have hstep := V.error_step h.1
    ⟨⟨hstep.1, K.error h.1 h.2⟩, hstep.2⟩

end ConnOutline

end Webstore
