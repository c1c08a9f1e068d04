/-
  Webstore.Daemon.Serial

  The server with threads and the server without.  With `--tpc` every
  connection is served in a thread of its own and the commands of a check or a
  call run in the RAI lock; without it one thread serves all, and there is no
  lock.  As long as Redis replies and nobody stops the server, a client cannot
  tell the one from the other.

  Where a reply is lost this is not so: `g_shutdown` is read before the lock is
  taken, so that a thread which waits for the lock then goes on with a context
  that another has found broken.
-/
import Webstore.Daemon.Stored
import Webstore.Sched.Serial

namespace Webstore

open Webstore.Libc Webstore.Sched

/-- The server with threads, or without. -/
def Wsrt.threaded (rt : Wsrt) (b : Bool) : Wsrt := { rt with multithreaded := b }

section
variable {α β : Type}

theorem unlocked_orDie (x : Except Fault α) : (orDie x).unlocked = orDie x := by
  cases x with
  | ok a => rfl
  | error f => exact congrArg (Prog.op (S := Rai) (.fault f)) (funext fun e => nomatch e)

end

/-- Without its locks, a GET is the GET of the server without threads. -/
theorem unlocked_get (req : WsReq) (rt : Wsrt) (ri : Srci) :
    (get req (rt.threaded true) ri).unlocked = get req (rt.threaded false) ri := by
  unfold get
  split
  · rfl
  · simp only [Prog.unlocked_bind, unlocked_orDie]
    congr 1
    funext hash
    cases hash with
    | none => rfl
    | some hash =>
        refine congrArg (Prog.op (S := Rai) (.redisCommand (.get (cString hash))))
          (funext fun reply => ?_)
        rcases reply with - | (str | - | str | n | str)
        · rfl
        · obtain ⟨m, p, c, d, e, i, bar⟩ := rt
          cases bar <;> rfl
        all_goals rfl

/-- The same of the command of a POST. -/
theorem unlocked_doRedisPost (rt : Wsrt) (hash dataptr : Bytes) (datalen : Nat) :
    (doRedisPost (rt.threaded true) hash dataptr datalen).unlocked =
      doRedisPost (rt.threaded false) hash dataptr datalen := by
  unfold doRedisPost
  simp only [Prog.unlocked_bind, unlocked_orDie]
  congr 1
  funext data
  refine congrArg (Prog.op (S := Rai) (.redisCommand (setCommand rt hash (data ++ [0]))))
    (funext fun reply => ?_)
  cases reply <;> rfl

/-- The same of a whole POST. -/
theorem unlocked_post (req : WsReq) (rt : Wsrt) (ri : Srci) :
    (post req (rt.threaded true) ri).unlocked = post req (rt.threaded false) ri := by
  unfold post
  split
  · rfl
  · dsimp only
    split
    · rfl
    · simp only [Prog.unlocked_bind, unlocked_orDie]
      congr 1
      funext z
      split
      · rfl
      · simp only [Prog.unlocked_bind, unlocked_orDie]
        congr 1
        funext hash
        cases hash with
        | none => rfl
        | some hash =>
            simp only [Prog.unlocked_bind, unlocked_doRedisPost]
            congr 1
            funext z
            split <;> rfl

/-- The same of a node of the store. -/
theorem unlocked_storeNode (type : Nat) (hashlen : Int) (url : Bytes) (urllen : Int) (ri : Srci)
    (rt : Wsrt) :
    (storeNode type hashlen url urllen ri (rt.threaded true)).unlocked =
      storeNode type hashlen url urllen ri (rt.threaded false) := by
  unfold storeNode
  simp only [shuttingDown_bind, Prog.unlocked]
  congr 1
  funext stop
  cases stop with
  | true => rfl
  | false =>
      simp only [Bool.false_eq_true, if_false]
      cases ri.methodType with
      | get => exact unlocked_get ..
      | post => exact unlocked_post ..
      | _ => rfl

/-- The configuration takes no lock. -/
theorem unlocked_nodecfg (url : Bytes) (urllen : Int) (ri : Srci) (rt : Wsrt) :
    (nodecfg url urllen ri (rt.threaded true)).unlocked =
      nodecfg url urllen ri (rt.threaded false) := by
  obtain ⟨r, hr⟩ := nodecfg_eq url urllen ri (rt.threaded true)
  have hsame : nodecfg url urllen ri (rt.threaded false) =
      nodecfg url urllen ri (rt.threaded true) := rfl
  rw [hsame, hr]
  rfl

/-- The same of whatever node a request gets to. -/
theorem unlocked_node {node : Bytes → Int → Srci → Wsrt → Prog Rai (Bytes × Srci)}
    (h : node ∈ callbacks) (url : Bytes) (urllen : Int) (ri : Srci) (rt : Wsrt) :
    (node url urllen ri (rt.threaded true)).unlocked = node url urllen ri (rt.threaded false) := by
  simp only [callbacks, List.mem_cons, List.not_mem_nil, or_false] at h
  rcases h with rfl | rfl | rfl | rfl | rfl | rfl | rfl
  · exact unlocked_nodecfg ..
  all_goals exact unlocked_storeNode ..

/-! ## The framework -/

/-- The node without the mutex. -/
def Srn.unlocked (n : Srn) : Srn :=
  { n with cb := fun url urllen ri => (n.cb url urllen ri).unlocked }

/-- The server without the mutex. -/
def Sri.unlocked (ws : Sri) : Sri := { ws with nodelist := ws.nodelist.map Srn.unlocked }

theorem unlocked_searestNodeAdd (ws : Sri) (rootname : Bytes) (func : NodeCallback) :
    (searestNodeAdd ws rootname func).unlocked =
      searestNodeAdd ws.unlocked rootname fun url urllen ri => (func url urllen ri).unlocked := by
  simp only [searestNodeAdd, Sri.unlocked, List.map_append, List.getLast?_map]
  cases ws.nodelist.getLast? <;> rfl

/-- The nodes of the server without threads are those of the other without their
    locks. -/
theorem unlocked_webstoreStart (rt : Wsrt) :
    (webstoreStart (rt.threaded true)).unlocked = webstoreStart (rt.threaded false) := by
  have hcb : ∀ node ∈ callbacks, (fun url urllen ri =>
      (nodeCallback node (rt.threaded true) url urllen ri).unlocked) =
        nodeCallback node (rt.threaded false) := by
    intro node hnode
    funext url urllen ri
    unfold nodeCallback
    rw [Prog.unlocked_bind, unlocked_node hnode]
    rfl
  simp only [callbacks, List.forall_mem_cons] at hcb
  obtain ⟨hcfg, h128, h160, h224, h256, h384, h512, -⟩ := hcb
  simp only [webstoreStart, unlocked_searestNodeAdd, hcfg, h128, h160, h224, h256, h384, h512]
  rfl

/-- `process_request` has no locks of its own; its nodes do. -/
theorem unlocked_processRequest (ws : Sri) (ri : Srci) :
    (processRequest ws ri).unlocked = processRequest ws.unlocked ri := by
  have hfind : searestNodeFind ws.unlocked ri.url =
      (searestNodeFind ws ri.url).map Srn.unlocked := by
    simp only [searestNodeFind, Sri.unlocked, List.find?_map]
    rfl
  unfold processRequest
  rw [hfind]
  cases searestNodeFind ws ri.url with
  | none => rfl
  | some n =>
      simp only [Option.map_some]
      cases hd : n.disabled with
      | true => simp [Srn.unlocked, hd, Prog.unlocked]
      | false =>
          simp only [Srn.unlocked, hd, Bool.false_eq_true, if_false, Prog.unlocked_bind,
            searestNodeLen]
          rfl

/-- Nor has the callback of the HTTP library. -/
theorem unlocked_uhdRequestStarted (ws : Sri) (hdr : Headers) (c : Bytes) (cls : Option Srci) :
    (uhdRequestStarted ws hdr c cls).unlocked = uhdRequestStarted ws.unlocked hdr c cls := by
  unfold uhdRequestStarted
  rw [Prog.unlocked_bind, unlocked_orDie]
  congr 1
  funext out
  cases out with
  | complete ri =>
      rw [Prog.unlocked_bind, unlocked_processRequest]
      rfl
  | _ => rfl

/-- Nor the calls that bring the body. -/
theorem unlocked_uhdUpload (ws : Sri) (hdr : Headers) (cls : Option Srci) (chunks : List Bytes) :
    (uhdUpload ws hdr cls chunks).unlocked = uhdUpload ws.unlocked hdr cls chunks := by
  induction chunks generalizing cls with
  | nil =>
      rw [uhdUpload, uhdUpload, Prog.unlocked_bind, unlocked_uhdRequestStarted]
      rfl
  | cons c chunks ih =>
      rw [uhdUpload, uhdUpload, Prog.unlocked_bind, unlocked_uhdRequestStarted]
      congr 1
      funext r
      obtain ⟨ret, cls⟩ := r
      cases ret with
      | yes => exact ih cls
      | _ => rfl

/-- Nor a request as a whole. -/
theorem unlocked_uhdRequest (ws : Sri) (hdr : Headers) (chunks : List Bytes) :
    (uhdRequest ws hdr chunks).unlocked = uhdRequest ws.unlocked hdr chunks := by
  rw [uhdRequest, uhdRequest, Prog.unlocked_bind, unlocked_uhdRequestStarted]
  congr 1
  funext r
  obtain ⟨ret, cls⟩ := r
  cases ret with
  | yes => exact unlocked_uhdUpload ws hdr cls chunks
  | _ => rfl

/-! ## The server -/

theorem unlocked_saveStep (rt : Wsrt) (ip : Bytes) (found : Bool) :
    (saveStep (rt.threaded true) ip found).unlocked = saveStep (rt.threaded false) ip found := by
  refine congrArg (Prog.op (S := Rai) (.redisCommand (saveCommand ip found rt.reqperiod)))
    (funext fun reply => ?_)
  cases reply <;> rfl

/-- Without its locks, a check is the check of the server without threads. -/
theorem unlocked_checkSection (rt : Wsrt) (ip : Bytes) :
    (checkSection (rt.threaded true) ip).unlocked = checkSection (rt.threaded false) ip := by
  refine congrArg (Prog.op (S := Rai) (.redisCommand (.get (ipKey ip)))) (funext fun reply => ?_)
  rcases reply with - | (str | - | str | n | str)
  · rfl
  · simp only [afterRead]
    split
    · rename_i hlt
      exact (unlocked_saveStep rt ip true).trans (if_pos hlt).symm
    · rename_i hlt
      exact (if_neg hlt).symm
  · exact unlocked_saveStep rt ip false
  all_goals rfl

/-- The same of a connection. -/
theorem unlocked_clientConnect (rt : Wsrt) (incIp : Bytes) :
    (clientConnect (rt.threaded true) incIp).unlocked =
      clientConnect (rt.threaded false) incIp := by
  have hcheck : (wsAddrCheck (rt.threaded true) incIp).unlocked =
      wsAddrCheck (rt.threaded false) incIp := by
    rw [wsAddrCheck_eq, wsAddrCheck_eq]
    split
    · rfl
    · exact unlocked_checkSection rt incIp
  have hlimited : (rt.threaded true).limited = (rt.threaded false).limited := rfl
  unfold clientConnect
  rw [hlimited]
  split
  · exact hcheck
  · rfl

/-- A thread of the server does what the server without threads does, but for
    the mutex. -/
theorem unlocked_attend (rt : Wsrt) (r : Arrival) :
    (attend (rt.threaded true) r).unlocked = attend (rt.threaded false) r := by
  cases r with
  | connection incIp =>
      simp only [attend, Prog.unlocked_bind, unlocked_clientConnect]
      rfl
  | exchange x =>
      simp only [attend, Prog.unlocked_bind, unlocked_uhdRequest, unlocked_webstoreStart]
      rfl

/-! ## One section each -/

/-- What is read without the mutex; a thread that dies says nothing. -/
def RaiOp.IsRead : RaiOp → Prop
  | .shuttingDown => True
  | .fault _ => True
  | _ => False

/-- Nothing has gone wrong with Redis, and nobody stops the server. -/
def Server.Up (s : Server) : Prop := s.broken = false ∧ s.shutdown = false

theorem section_leave {α : Type} (rt : Wsrt) (a : α) :
    (leave (rt.threaded true) a).Section := ⟨a, rfl⟩

/-- A call reads and writes inside its section only. -/
theorem section_callSection (rt : Wsrt) (c : Expiry.Call Bytes Bytes) :
    (callSection (rt.threaded true) c).Section := by
  cases c with
  | get k =>
      rintro (- | (str | - | str | n | str))
      · exact fun _ => section_leave rt unavailable
      · simp only [afterGet]
        split
        · exact fun _ => section_leave rt _
        · exact section_leave rt _
      all_goals exact section_leave rt notFound
  | put k v =>
      rintro (- | reply)
      · exact fun _ => section_leave rt _
      · exact section_leave rt _

theorem section_saveStep (rt : Wsrt) (ip : Bytes) (found : Bool) :
    (saveStep (rt.threaded true) ip found).Section := by
  rintro (- | reply)
  · exact fun _ => section_leave rt _
  · exact section_leave rt _

/-- So does a check. -/
theorem section_checkSection (rt : Wsrt) (ip : Bytes) :
    (checkSection (rt.threaded true) ip).Section := by
  rintro (- | (str | - | str | n | str))
  · exact fun _ => section_leave rt _
  · simp only [afterRead]
    split
    · exact section_saveStep rt ip true
    · exact section_leave rt _
  · exact section_saveStep rt ip false
  all_goals exact section_leave rt _

/-- Whatever comes in has one section, and outside of it only asks whether the
    server is stopping. -/
theorem oneSection_attend {rt : Wsrt} (hrt : rt.LimitOk) (r : Arrival) :
    (attend (rt.threaded true) r).OneSection RaiOp.IsRead := by
  cases r with
  | connection incIp =>
      refine Prog.OneSection.bind_done ?_ Departure.verdict
      unfold clientConnect
      split
      · rw [wsAddrCheck_eq]
        split
        · trivial
        · exact section_checkSection rt incIp
      · trivial
  | exchange x =>
      refine Prog.OneSection.bind_done ?_ Departure.result
      -- refused, answered by a page, or a call
      have hform := @exchange_form (rt.threaded true) hrt x
      revert hform
      generalize uhdRequest (webstoreStart (rt.threaded true)) x.hdr x.chunks = p
      rintro (⟨r, -⟩ | ⟨resp, -⟩ | @⟨c, -⟩)
      · trivial
      · exact ⟨trivial, fun _ => trivial⟩
      · refine ⟨trivial, fun stop => ?_⟩
        cases stop with
        | true => trivial
        | false => exact (section_callSection rt c).bind_done queued

/-! ## Threads whose commands are answered -/

/-- The program sends `C` commands, and finds nothing wrong as long as each of
    them gets a reply. -/
def Unshaken {α : Type} (C : Cmd → Prop) : Prog Rai α → Prop
  | .done _ => True
  | .lock k => Unshaken C k
  | .unlock k => Unshaken C k
  | .op (.redisCommand c) f => C c ∧ ∀ reply, Unshaken C (f (some reply))
  | .op .shuttingDown f => ∀ stop, Unshaken C (f stop)
  | .op _ _ => False

section
variable {α β : Type} {C : Cmd → Prop}

/-- Going on with the answer does not change what is sent. -/
theorem Unshaken.bind_done {p : Prog Rai α} (h : Unshaken C p) (f : α → β) :
    Unshaken C (p >>= fun v => .done (f v)) := by
  induction p with
  | done v => trivial
  | lock k ih => exact ih h
  | unlock k ih => exact ih h
  | op o k ih =>
      cases o with
      | redisCommand c => exact ⟨h.1, fun reply => ih _ (h.2 reply)⟩
      | shuttingDown => exact fun stop => ih stop (h stop)
      | _ => exact h.elim

end

/-- While the server is up, what is read outside the sections is the same at any
    time. -/
theorem daemon_calm (P : Policy) (rt : Wsrt) :
    (daemonMachine P rt).Calm Server.Up RaiOp.IsRead where
  read := by
    intro o a c v b ho hup hx
    cases o with
    | shuttingDown =>
        cases hx
        -- it reads `false` in every state in which the server is up
        refine ⟨rfl, rfl, fun a' hup' => ⟨.answered, ?_⟩⟩
        simp [raiMachine, Server.exec, hup.2, hup'.2]
    | fault f => cases hx
    | _ => exact ho.elim
  op_back := by
    intro o a c v b hx hup
    cases o with
    | redisCommand cmd =>
        simp only [raiMachine, Server.exec, Option.ite_none_right_eq_some, Option.some.injEq] at hx
        obtain ⟨-, hx⟩ := hx
        -- a command cannot bring back a connection that was lost
        rcases a.command_cases cmd c with ⟨-, h⟩ | ⟨hb, h⟩ | ⟨hb, msg, h⟩ | ⟨hb, db', -, h⟩ <;>
          rw [h] at hx <;> cases hx
        · exact hup
        · exact ⟨hb, hup.2⟩
        · exact hup
        · exact ⟨hb, hup.2⟩
    | handleRedisError =>
        cases hx
        cases hup.2
    | shuttingDown =>
        cases hx
        exact hup
    | fault f => cases hx
  env_back := by
    intro e a b he hup
    cases e with
    | tick d =>
        cases he
        exact hup
    | signal =>
        simp only [raiMachine, Server.env, Option.ite_none_right_eq_some, Option.some.injEq] at he
        obtain ⟨-, rfl⟩ := he
        cases hup.2

/-- Without its locks the server with threads is the server without. -/
theorem serial_daemonMachine (P : Policy) (rt : Wsrt) :
    (daemonMachine P (rt.threaded true)).serial = daemonMachine P (rt.threaded false) := by
  have hbody : (fun r => (attend (rt.threaded true) r).unlocked) = attend (rt.threaded false) :=
    funext (unlocked_attend rt)
  unfold daemonMachine
  rw [← hbody]
  rfl

/-- Threads change nothing.  Take any run of the server with threads, in two
    parts, in which Redis has replied to every command and nobody has stopped
    the server.  Then the server without threads has a run, in two parts, in
    which the same requests get the same answers, those answered in the first
    part in the first; one request may still be in its section.  The commands
    and their replies are the same, in the same order, and so is what Redis
    holds. -/
theorem daemon_serializable {P : Policy} {rt : Wsrt} (hrt : rt.LimitOk) {a : Server}
    {h₁ h₂ : List DaemonEvent} {s₁ s₂ : DaemonSys}
    (run₁ : (daemonMachine P (rt.threaded true)).Run (Machine.init a) h₁ s₁)
    (run₂ : (daemonMachine P (rt.threaded true)).Run s₁ h₂ s₂)
    (hbroken : s₂.shared.broken = false) (hshutdown : s₂.shared.shutdown = false) :
    ∃ g₁ t₁ g₂ t₂, (daemonMachine P (rt.threaded false)).Run (Machine.init a) g₁ t₁ ∧
      t₁.threads.Perm s₁.answered ∧ (daemonMachine P (rt.threaded false)).Run t₁ g₂ t₂ ∧
      t₂.threads.Perm (s₂.answered ++ s₂.inside.map Thread.unlocked) ∧ t₂.shared = s₂.shared ∧
      (g₁ ++ g₂).map Event.unnamed = (h₁ ++ h₂).map Event.unnamed := by
  rw [← serial_daemonMachine]
  obtain ⟨g₁, t₁, g₂, t₂, srun₁, hperm₁, -, h⟩ :=
    (daemon_calm P (rt.threaded true)).serializable (oneSection_attend hrt) run₁ run₂
      ⟨hbroken, hshutdown⟩
  exact ⟨g₁, t₁, g₂, t₂, srun₁, hperm₁, h⟩

/-- A POST waits for the lock while a connection is checked, and after the cut
    gets it. -/
def checkDuringPost : List (Label Arrival Env Outcome) :=
  [.spawn (.exchange helloPost), .spawn (.connection (ascii "10.0.0.1")), .act 1 .answered,
    .act 0 .answered, .act 1 .answered, .env (.tick 5), .act 1 .answered, .act 1 .answered]

def postAfterCheck : List (Label Arrival Env Outcome) :=
  [.act 0 .answered, .act 0 .answered, .act 0 .answered]

theorem daemon_serializable_check :
    ∃ g₁ t₁ g₂ t₂, (daemonMachine .anything (throttledRt.threaded false)).Run
        (Machine.init (Server.start (.empty 0))) g₁ t₁ ∧
      (t₁.threads.map fun t => (t.req, t.code.answer?)).Perm
        [(.connection (ascii "10.0.0.1"), some (.verdict srIpAccept))] ∧
      (daemonMachine .anything (throttledRt.threaded false)).Run t₁ g₂ t₂ ∧
      (t₂.threads.map fun t => (t.req, t.code.answer?)).Perm
        [(.exchange helloPost, some (.result (.queued ⟨httpOk, ascii "ok"⟩))),
          (.connection (ascii "10.0.0.1"), some (.verdict srIpAccept))] := by
  have hf : (((daemonMachine .anything (throttledRt.threaded true)).follow
      (Machine.init (Server.start (.empty 0))) checkDuringPost).bind fun r₁ =>
        ((daemonMachine .anything (throttledRt.threaded true)).follow r₁.2 postAfterCheck).map
          fun r₂ => ((r₂.2.shared.broken, r₂.2.shared.shutdown),
            r₁.2.answered.map fun t => (t.req, t.code.answer?),
            (r₂.2.answered ++ r₂.2.inside.map Thread.unlocked).map fun t =>
              (t.req, t.code.answer?))) =
      some ((false, false), [(.connection (ascii "10.0.0.1"), some (.verdict srIpAccept))],
        [(.exchange helloPost, some (.result (.queued ⟨httpOk, ascii "ok"⟩))),
          (.connection (ascii "10.0.0.1"), some (.verdict srIpAccept))]) := by decide +kernel
  obtain ⟨h₁, s₁, h₂, s₂, run₁, run₂, heq⟩ := Machine.exists_runs_of_follow hf
  simp only [Prod.mk.injEq] at heq
  obtain ⟨⟨hbroken, hshutdown⟩, hthreads₁, hthreads₂⟩ := heq
  obtain ⟨g₁, t₁, g₂, t₂, srun₁, hperm₁, srun₂, hperm₂, -⟩ :=
    @daemon_serializable .anything throttledRt ⟨by decide, by decide⟩ _ _ _ _ _ run₁ run₂ hbroken
      hshutdown
  exact ⟨g₁, t₁, g₂, t₂, srun₁, hthreads₁ ▸ hperm₁.map _, srun₂, hthreads₂ ▸ hperm₂.map _⟩

end Webstore
