/-
  Webstore.Node.Rule

  The proof rule for the store nodes.  A `NodeOutline` says what holds while
  no thread is in its section, what holds of a thread between the two
  commands of a burning GET, what holds of one that got no reply, and what
  holds of every answer.  Its obligations are one for each command;
  `NodeOutline.Valid.outline` makes an outline of the machine out of them.
-/
import Webstore.Node.Flow
import Webstore.Sched.Outline

namespace Webstore

open Webstore.Libc Webstore.Sched

abbrev NodeEvent := Event Rai Server NodeReq Env

abbrev NodeWorld := World Rai Server NodeReq Env

/-- The event of a command. -/
@[reducible] def commandEvent (i : Nat) (r : NodeReq) (c : Cmd) (v : Option Reply)
    (pre post : Server) : NodeEvent :=
  .op (S := Rai) i r (.redisCommand c) v pre post

/-- The world after a command. -/
@[reducible] def afterCommand (w : NodeWorld) (i : Nat) (r : NodeReq) (c : Cmd)
    (vs : Option Reply × Server) : NodeWorld :=
  w.push (commandEvent i r c vs.1 w.shared vs.2)

/-- What is claimed at each point of a request. -/
structure NodeOutline where
  Always : NodeWorld → Prop
  Rest : NodeWorld → Prop
  Burning : Nat → NodeReq → Bytes → Bytes → NodeWorld → Prop
  Failing : Nat → NodeReq → NodeWorld → Prop
  Post : Nat → NodeReq → Response → NodeWorld → Prop

namespace NodeOutline

variable (N : NodeOutline) (rt : Wsrt)

/-- What has to hold once the reply to a GET is there. -/
def AfterGet (i : Nat) (r : NodeReq) (k : Bytes) (w : NodeWorld) : Option Reply → Prop
  | none => N.Failing i r w
  | some (.string str) =>
      if rt.bar then N.Burning i r k str w else N.Rest w ∧ N.Post i r ⟨httpOk, cString str⟩ w
  | some _ => N.Rest w ∧ N.Post i r notFound w

/-- What has to hold once the reply to a SET is there. -/
def AfterSet (i : Nat) (r : NodeReq) (w : NodeWorld) : Option Reply → Prop
  | none => N.Failing i r w
  | some reply => N.Rest w ∧ N.Post i r (postResponse (postError reply)) w

/-- The obligations, one command at a time. -/
structure Valid (P : Policy) : Prop where
  always_of_rest : ∀ {w}, N.Rest w → N.Always w
  always_of_burning : ∀ {i r k str w}, N.Burning i r k str w → N.Always w
  always_of_failing : ∀ {i r w}, N.Failing i r w → N.Always w
  rest_env : ∀ {w e σ'}, N.Rest w → Server.env P e w.shared = some σ' →
    N.Rest (w.push (.env e w.shared σ'))
  burning_env : ∀ {i r k str w e σ'}, N.Burning i r k str w →
    Server.env P e w.shared = some σ' → N.Burning i r k str (w.push (.env e w.shared σ'))
  failing_env : ∀ {i r w e σ'}, N.Failing i r w → Server.env P e w.shared = some σ' →
    N.Failing i r (w.push (.env e w.shared σ'))
  post_push : ∀ {i r a w ev}, N.Post i r a w → ev.tid ≠ some i → N.Post i r a (w.push ev)
  stopped : ∀ {i r w}, N.Always w → w.shared.shutdown = true →
    ∀ w', N.Always w' → w'.Fresh i → N.Post i r stopping w'
  refused : ∀ {i r resp w}, r.call = .error resp → N.Always w → w.Fresh i → N.Post i r resp w
  get_step : ∀ {i r k w out}, r.call = .ok (.get k) → N.Rest w → w.Fresh i →
    P.outcome out = true →
    N.AfterGet rt i r k (afterCommand w i r (.get k) (w.shared.command (.get k) out))
      (w.shared.command (.get k) out).1
  set_step : ∀ {i r k v w out}, r.call = .ok (.put k v) → N.Rest w → w.Fresh i →
    P.outcome out = true →
    N.AfterSet i r
      (afterCommand w i r (storeCommand rt k v) (w.shared.command (storeCommand rt k v) out))
      (w.shared.command (storeCommand rt k v) out).1
  del_step : ∀ {i r k str w out}, N.Burning i r k str w → P.outcome out = true →
    N.Rest (afterCommand w i r (.del k) (w.shared.command (.del k) out)) ∧
      N.Post i r ⟨httpOk, cString str⟩
        (afterCommand w i r (.del k) (w.shared.command (.del k) out))
  error_step : ∀ {i r w}, N.Failing i r w →
    N.Rest (w.push (.op (S := Rai) i r .handleRedisError () w.shared w.shared.stop)) ∧
      N.Post i r unavailable
        (w.push (.op (S := Rai) i r .handleRedisError () w.shared w.shared.stop))

/-- Where a thread can stand in its section.  Without threads the section
    begins with the request, before `g_shutdown` is read. -/
inductive InCall (i : Nat) (r : NodeReq) : Prog Rai Response → NodeWorld → Prop where
  | dispatch {w : NodeWorld} (hm : rt.multithreaded = false) (hw : N.Rest w) (hf : w.Fresh i) :
      InCall i r (r.serve rt) w
  | start {c : Expiry.Call Bytes Bytes} {p : Prog Rai Response} {w : NodeWorld}
      (hp : p = callSection rt c) (hc : r.call = .ok c) (hw : N.Rest w) (hf : w.Fresh i) :
      InCall i r p w
  | burning {k str : Bytes} {w : NodeWorld} (hw : N.Burning i r k str w) :
      InCall i r
        (.op (S := Rai) (.redisCommand (.del k)) fun _ => leave rt ⟨httpOk, cString str⟩) w
  | failing {w : NodeWorld} (hw : N.Failing i r w) :
      InCall i r (.op (S := Rai) .handleRedisError fun _ => leave rt unavailable) w
  | finish {a : Response} {p : Prog Rai Response} {w : NodeWorld} (hp : p = leave rt a)
      (hw : N.Rest w) (ha : N.Post i r a w) : InCall i r p w

/-- The outline of the machine. -/
def outline (P : Policy) : Outline (nodeMachine P rt) where
  I := N.Always
  J := N.Rest
  A := N.InCall rt
  Post := N.Post

variable {N rt} {P : Policy}

/-- Behind a GET there is an answer, or a DEL to be sent. -/
theorem inCall_afterGet {i : Nat} {r : NodeReq} {k : Bytes} {w : NodeWorld} {v : Option Reply}
    (h : N.AfterGet rt i r k w v) : N.InCall rt i r (afterGet rt k v) w := by
  rcases v with - | (str | - | str | n | str)
  · exact .failing h
  · simp only [AfterGet] at h
    simp only [afterGet]
    split
    · rename_i hbar
      rw [if_pos hbar] at h
      exact .burning h
    · rename_i hbar
      rw [if_neg hbar] at h
      exact .finish rfl h.1 h.2
  · exact .finish rfl h.1 h.2
  · exact .finish rfl h.1 h.2
  · exact .finish rfl h.1 h.2
  · exact .finish rfl h.1 h.2

theorem inCall_afterSet (rt : Wsrt) {i : Nat} {r : NodeReq} {w : NodeWorld} {v : Option Reply}
    (h : N.AfterSet i r w v) : N.InCall rt i r (afterSet rt v) w := by
  cases v with
  | none => exact .failing h
  | some reply => exact .finish rfl h.1 h.2

/-- A request starts as the outline wants it: it is refused, or it makes its call in
    a section. -/
theorem Valid.starts (V : N.Valid rt P) (i : Nat) (r : NodeReq) :
    (N.outline rt P).Starts i r (r.serve rt) := by
  unfold Outline.Starts
  split
  · rename_i hm
    have hm' : rt.multithreaded = true := hm
    rw [r.serve_eq rt]
    -- `g_shutdown` is read before the lock is taken
    refine .read rfl ?_
    intro w c v σ' hw hx
    cases hx
    by_cases hstop : w.shared.shutdown = true
    · rw [if_pos hstop]
      exact .done (V.stopped hw hstop)
    · rw [if_neg hstop, NodeReq.flow]
      cases hc : r.call with
      | error resp => exact .done fun w hw hf => V.refused hc hw hf
      | ok c =>
          simp only [enter, hm', if_true]
          exact .lock fun w hw hf => .start rfl hc hw hf
  · rename_i hm
    have hm' : rt.multithreaded = false := Bool.eq_false_iff.mpr hm
    refine ⟨fun a ha => ?_, fun _ w hw hf => .dispatch hm' hw hf⟩
    rw [r.serve_eq rt] at ha
    cases ha

/-- Reading `g_shutdown` at the beginning of a section. -/
theorem Valid.dispatch_op (V : N.Valid rt P) (hm : rt.multithreaded = false) {i : Nat}
    {r : NodeReq} {w : NodeWorld} (hw : N.Rest w) (hf : w.Fresh i) :
    N.InCall rt i r (if w.shared.shutdown then .done stopping else r.flow rt) w := by
  have hleave : ∀ a : Response, .done a = leave rt a := fun a => by simp [leave, hm]
  by_cases hstop : w.shared.shutdown = true
  · rw [if_pos hstop]
    have halways := V.always_of_rest hw
    exact .finish (hleave _) hw (V.stopped halways hstop w halways hf)
  · rw [if_neg hstop, NodeReq.flow]
    cases hc : r.call with
    | error resp => exact .finish (hleave _) hw (V.refused hc (V.always_of_rest hw) hf)
    | ok c =>
        simp only [enter, hm, Bool.false_eq_true, if_false]
        exact .start rfl hc hw hf

/-- A command of the thread that is in its section. -/
theorem Valid.section_op (V : N.Valid rt P) {i : Nat} {r : NodeReq} {o : RaiOp}
    {k : RaiOp.Ret o → Prog Rai Response} {w : NodeWorld} {c : Outcome} {v : RaiOp.Ret o}
    {σ' : Server} (h : N.InCall rt i r (.op (S := Rai) o k) w)
    (hx : Server.exec P o w.shared c = some (v, σ')) :
    N.InCall rt i r (k v)
      (if RaiOp.observed o then w.push (.op (S := Rai) i r o v w.shared σ') else w) := by
  -- the cases of `InCall` need a variable for the code
  generalize hp : Prog.op (S := Rai) o k = p at h
  cases h with
  | dispatch hm hw hf =>
      rw [r.serve_eq rt] at hp
      cases hp
      cases hx
      exact V.dispatch_op hm hw hf
  | start hp' hc hw hf =>
      rw [← hp] at hp'
      rename_i call
      cases call with
      | get key =>
          cases hp'
          simp only [Server.exec, Option.ite_none_right_eq_some, Option.some.injEq] at hx
          obtain ⟨hout, hvs⟩ := hx
          have := inCall_afterGet (V.get_step hc hw hf hout)
          rw [hvs] at this
          exact this
      | put key val =>
          cases hp'
          simp only [Server.exec, Option.ite_none_right_eq_some, Option.some.injEq] at hx
          obtain ⟨hout, hvs⟩ := hx
          have := inCall_afterSet rt (V.set_step hc hw hf hout)
          rw [hvs] at this
          exact this
  | burning hw =>
      cases hp
      simp only [Server.exec, Option.ite_none_right_eq_some, Option.some.injEq] at hx
      obtain ⟨hout, hvs⟩ := hx
      obtain ⟨hr, hp⟩ := V.del_step hw hout
      rw [hvs] at hr hp
      exact .finish rfl hr hp
  | failing hw =>
      cases hp
      cases hx
      obtain ⟨hr, hp⟩ := V.error_step hw
      exact .finish rfl hr hp
  | finish hp' =>
      rw [← hp] at hp'
      rcases leave_cases hp' with ⟨-, hk⟩ | ⟨-, hk⟩ <;> cases hk

/-- A section begins with an operation. -/
theorem serve_eq_op (r : NodeReq) (rt : Wsrt) :
    ∃ o k, r.serve rt = .op (S := Rai) o k := ⟨_, _, r.serve_eq rt⟩

/-- A thread whose next step is no operation has its answer. -/
theorem InCall.finished {i : Nat} {r : NodeReq} {p : Prog Rai Response} {w : NodeWorld}
    (h : N.InCall rt i r p w) (hp : ∀ o k, p ≠ .op (S := Rai) o k) :
    ∃ a, p = leave rt a ∧ N.Rest w ∧ N.Post i r a w := by
  cases h with
  | dispatch =>
      obtain ⟨o, k, hop⟩ := serve_eq_op r rt
      exact absurd hop (hp o k)
  | start hstart =>
      obtain ⟨c, k, hop⟩ := callSection_eq_op rt _
      exact absurd (hstart.trans hop) (hp _ k)
  | burning => exact absurd rfl (hp _ _)
  | failing => exact absurd rfl (hp _ _)
  | finish hleave hw ha => exact ⟨_, hleave, hw, ha⟩

/-- The rule: the obligations make the outline valid. -/
theorem Valid.outline (V : N.Valid rt P) : (N.outline rt P).Valid where
  quiet := Server.exec_quiet
  always_of_rest := V.always_of_rest
  always_of_section := by
    intro i r p w h
    -- each stage of a call stands in one of the three states of the resource
    cases h with
    | dispatch _ hw _ => exact V.always_of_rest hw
    | start _ _ hw _ => exact V.always_of_rest hw
    | burning hw => exact V.always_of_burning hw
    | failing hw => exact V.always_of_failing hw
    | finish _ hw _ => exact V.always_of_rest hw
  rest_env := V.rest_env
  section_env := by
    intro i r p w e σ' h he
    cases h with
    | dispatch hm hw hf => exact .dispatch hm (V.rest_env hw he) (hf.push (by simp))
    | start hp hc hw hf => exact .start hp hc (V.rest_env hw he) (hf.push (by simp))
    | burning hw => exact .burning (V.burning_env hw he)
    | failing hw => exact .failing (V.failing_env hw he)
    | finish hp hw ha => exact .finish hp (V.rest_env hw he) (V.post_push ha (by simp))
  post_push := V.post_push
  starts := V.starts
  section_op := V.section_op
  section_unlock := by
    intro i r k w h
    obtain ⟨a, hleave, hw, ha⟩ := InCall.finished h (by simp)
    rcases leave_cases hleave with ⟨hm, hk⟩ | ⟨-, hk⟩
    · cases hk
      exact ⟨hm, a, rfl, hw, ha⟩
    · cases hk
  section_done := by
    intro i r a w h
    obtain ⟨a', hleave, hw, ha⟩ := InCall.finished h (by simp)
    rcases leave_cases hleave with ⟨-, hk⟩ | ⟨hm, hk⟩
    · cases hk
    · cases hk
      exact ⟨hm, hw, ha⟩
  section_lock := by
    intro i r k w h
    obtain ⟨a, hleave, -, -⟩ := InCall.finished h (by simp)
    rcases leave_cases hleave with ⟨-, hk⟩ | ⟨-, hk⟩ <;> cases hk

/-- What a node outline says of every run. -/
theorem Valid.holds (V : N.Valid rt P) {s₀ : Server}
    (h₀ : N.Rest ⟨[], s₀⟩) {h : List NodeEvent} {s : Sys Rai Server NodeReq Response}
    (run : (nodeMachine P rt).Run (Machine.init s₀) h s) : (N.outline rt P).Holds h s :=
  Outline.holds_of_run V.outline h₀ run

theorem Valid.always (V : N.Valid rt P) {s₀ : Server}
    (h₀ : N.Rest ⟨[], s₀⟩) {h : List NodeEvent} {s : Sys Rai Server NodeReq Response}
    (run : (nodeMachine P rt).Run (Machine.init s₀) h s) : N.Always ⟨h, s.shared⟩ :=
  (V.holds h₀ run).always V.outline

theorem Valid.answered (V : N.Valid rt P) {s₀ : Server}
    (h₀ : N.Rest ⟨[], s₀⟩) {h : List NodeEvent} {s : Sys Rai Server NodeReq Response}
    (run : (nodeMachine P rt).Run (Machine.init s₀) h s) {i : Nat}
    {t : Thread Rai NodeReq Response} {a : Response} (ht : s.threads[i]? = some t)
    (ha : t.code = .done a) : N.Post i t.req a ⟨h, s.shared⟩ :=
  (V.holds h₀ run).answered V.outline ht ha

end NodeOutline

end Webstore
