/-
  Webstore.Service.FailStop

  What follows when Redis stops answering.  Every command of the server hands
  a missing reply to `handle_redis_error`, which stops the server, except the
  DEL of a burning GET: `do_redis_del` frees the reply without looking.  Once
  the server is stopping it stays so, and no node sends another command.
-/
import Webstore.Sched.Local
import Webstore.Service.Guard

namespace Webstore

open Webstore.Libc Webstore.Sched

namespace FailStop

/-- A command, the thread that sent it and its reply. -/
structure Exchange where
  tid : Nat
  cmd : Cmd
  reply : Option Reply
deriving DecidableEq

/-- The exchange an event records. -/
def exchange : ServiceEvent → Option Exchange
  | .op i _ (.redisCommand c) v _ _ => some ⟨i, c, v⟩
  | _ => none

/-- A command of thread `i` that got no reply. -/
def Unreplied (i : Nat) (ev : ServiceEvent) : Prop := ∃ c, exchange ev = some ⟨i, c, none⟩

/-- A DEL that got no reply. -/
def DelUnreplied (ev : ServiceEvent) : Prop := ∃ i k, exchange ev = some ⟨i, .del k, none⟩

/-- A call of `handle_redis_error`. -/
def Handled : ServiceEvent → Prop
  | .op _ _ .handleRedisError _ _ _ => True
  | _ => False

/-! ## Stopping for good -/

/-- A server that is stopping goes on stopping. -/
theorem stopped_of_genuine {P : Policy} {rt : Wsrt} {ev : ServiceEvent}
    (h : (serviceMachine P rt).Genuine ev) (hpre : ev.pre.shutdown = true ∨ Handled ev) :
    ev.post.shutdown = true := by
  rcases ev with ⟨i, r, o, v, pre, post⟩ | ⟨e, pre, post⟩
  · obtain ⟨out, hx⟩ := h
    cases o with
    | redisCommand c =>
        have hstop : pre.shutdown = true := hpre.resolve_right id
        simp only [raiMachine, Server.exec, Option.ite_none_right_eq_some, Option.some.injEq] at hx
        obtain ⟨-, hx⟩ := hx
        -- no command resets the flag, whatever becomes of it
        rcases pre.command_cases c out with ⟨-, hc⟩ | ⟨-, hc⟩ | ⟨-, _, hc⟩ | ⟨-, _, -, hc⟩ <;>
          · rw [hc] at hx
            cases hx
            exact hstop
    | handleRedisError =>
        cases hx
        rfl
    | shuttingDown =>
        cases hx
        exact hpre.resolve_right id
    | fault d => cases hx
  · have hstop : pre.shutdown = true := hpre.resolve_right id
    cases e with
    | tick d =>
        cases h
        exact hstop
    | signal =>
        simp only [Machine.Genuine, raiMachine, Server.env, Option.ite_none_right_eq_some,
          Option.some.injEq] at h
        obtain ⟨-, rfl⟩ := h
        rfl

/-- A server that was stopping, or has handled an error, is stopping. -/
theorem stopped_of_linked {P : Policy} {rt : Wsrt} {h : List ServiceEvent} {a b : Server}
    (hl : Machine.Linked a h b) (hg : ∀ ev ∈ h, (serviceMachine P rt).Genuine ev)
    (hs : a.shutdown = true ∨ ∃ ev ∈ h, Handled ev ∨ ev.pre.shutdown = true) :
    b.shutdown = true := by
  induction h generalizing a with
  | nil =>
      obtain rfl : a = b := hl
      rcases hs with hs | ⟨ev, hm, -⟩
      · exact hs
      · cases hm
  | cons ev h ih =>
      obtain ⟨rfl, hl⟩ := hl
      -- from here on the server is stopping, if it was or if `ev` handles an error
      have hpost := stopped_of_genuine (hg ev List.mem_cons_self)
      refine ih hl (fun ev hm => hg ev (List.mem_cons_of_mem _ hm)) ?_
      rcases hs with hs | ⟨ev', hm, hs⟩
      · exact .inl (hpost (.inl hs))
      · rcases List.mem_cons.mp hm with rfl | hm
        · exact .inl (hpost hs.symm)
        · exact .inr ⟨ev', hm, hs⟩

/-! ## A missing reply -/

theorem tid_of_unreplied {i : Nat} {ev : ServiceEvent} (h : Unreplied i ev) :
    ev.tid = some i := by
  obtain ⟨c, hc⟩ := h
  rcases ev with ⟨j, r, (c | - | - | d), v, pre, post⟩ | ⟨e, pre, post⟩
  · cases hc
    rfl
  all_goals cases hc

/-- What thread `i` has still to do about a missing reply. -/
structure Watched (i : Nat) (p : Prog Rai Outgoing) (es : List ServiceEvent) : Prop where
  guarded : ∃ l m, Guarded (fun _ => True) false l m p
  handles : (∃ ev ∈ es, Unreplied i ev ∧ ¬ DelUnreplied ev) →
    (∃ k, p = .op (S := Rai) .handleRedisError k) ∨ ∃ ev ∈ es, Handled ev

theorem guarded_serve (rt : Wsrt) (r : Incoming) :
    Guarded (fun _ => True) false false false (serve rt r) := by
  cases r with
  | connection ip => exact (guarded_connection rt ip).mono fun _ _ => trivial
  | request ri => exact (guarded_request rt ri).mono fun _ _ => trivial

/-- A thread goes on to `p'` from a step that asks for nothing. -/
theorem Watched.step {i : Nat} {p p' : Prog Rai Outgoing} {es : List ServiceEvent} {l : Bool}
    (h : Watched i p es) (hp : ∀ k, p ≠ .op (S := Rai) .handleRedisError k)
    (hg : Guarded (fun _ => True) false l false p') : Watched i p' es :=
  ⟨⟨l, false, hg⟩, fun hev => .inr ((h.handles hev).resolve_left fun ⟨k, hk⟩ => hp k hk)⟩

/-- A thread that is not to handle an error is not missing a reply. -/
theorem Watched.not_missed {i : Nat} {p : Prog Rai Outgoing} {es : List ServiceEvent}
    (h : Watched i p es) (hp : ∀ k, p ≠ .op (S := Rai) .handleRedisError k) :
    ∃ l, Guarded (fun _ => True) false l false p := by
  obtain ⟨l, m, hg⟩ := h.guarded
  cases m with
  | false => exact ⟨l, hg⟩
  | true =>
      obtain ⟨k, hk, -⟩ := hg.missed
      exact absurd hk (hp k)

theorem watched_command {i : Nat} {r : Incoming} {c : Cmd} {k : Option Reply → Prog Rai Outgoing}
    {es : List ServiceEvent} (h : Watched i (.op (S := Rai) (.redisCommand c) k) es)
    (v : Option Reply) (a b : Server) :
    Watched i (k v) (es ++ [.op (S := Rai) i r (.redisCommand c) v a b]) := by
  obtain ⟨l, -, hnone, hsome⟩ := h.not_missed nofun
  have hg : Guarded (fun _ => True) false l (v.isNone && !c.isDel) (k v) := by
    cases v with
    | none => exact hnone
    | some reply => exact hsome reply
  refine ⟨⟨l, _, hg⟩, ?_⟩
  rintro ⟨ev, hm, hun, hdel⟩
  rcases List.mem_append.mp hm with hm | hm
  · have hdone := (h.handles ⟨ev, hm, hun, hdel⟩).resolve_left (by rintro ⟨_, hk⟩; cases hk)
    obtain ⟨ev', hm', hh⟩ := hdone
    exact .inr ⟨ev', List.mem_append_left _ hm', hh⟩
  · rw [List.mem_singleton.mp hm] at hun hdel
    obtain ⟨c', hc'⟩ := hun
    cases hc'
    have hd : c.isDel = false := by
      cases c with
      | del key => exact absurd ⟨i, key, rfl⟩ hdel
      | _ => rfl
    -- the reply that is missing is this one, and is handled next
    rw [hd] at hg
    obtain ⟨f, hf, -⟩ := hg.missed
    exact .inl ⟨f, hf⟩

/-- A thread is watched over from its first step to its last. -/
theorem watched_local (P : Policy) (rt : Wsrt) :
    Machine.Local (serviceMachine P rt) (fun _ => True) (fun i _ => Watched i) where
  env _ _ := trivial
  starts i r := ⟨⟨_, _, guarded_serve rt r⟩, by simp⟩
  lock h := by
    obtain ⟨l, -, hg⟩ := h.not_missed nofun
    exact h.step nofun hg
  unlock h := by
    obtain ⟨l, -, hg⟩ := h.not_missed nofun
    exact h.step nofun hg
  op := by
    intro i r o k es a b c v h _ hx
    refine ⟨trivial, ?_⟩
    cases o with
    | redisCommand cmd => exact watched_command h v a b
    | handleRedisError =>
        -- handled: only a thread that misses a reply gets here
        obtain ⟨l, m, hg⟩ := h.guarded
        cases m with
        | false => exact hg.not_handle.elim
        | true =>
            obtain ⟨f, hf, hrest⟩ := hg.missed
            cases hf
            refine ⟨⟨l, false, hrest⟩,
              fun _ => .inr ⟨.op (S := Rai) i r .handleRedisError v a b, ?_, ?_⟩⟩
            · exact List.mem_append_right _ (List.mem_singleton.mpr rfl)
            · trivial
    | shuttingDown =>
        obtain ⟨l, hg⟩ := h.not_missed nofun
        have hread : Watched i (k v) es := h.step nofun (hg v)
        show Watched i (k v) (es ++ [])
        rwa [List.append_nil]
    | fault d => cases hx

/-! ## After the stop -/

/-- Every registered callback looks at `g_shutdown` first. -/
theorem callback_stopping {node : Bytes → Int → Srci → Wsrt → Prog Rai (Bytes × Srci)}
    (h : node ∈ callbacks) (url : Bytes) (urllen : Int) (ri : Srci) (rt : Wsrt) :
    ∃ f : Bool → Prog Rai (Bytes × Srci), node url urllen ri rt = .op (S := Rai) .shuttingDown f ∧
      f true = .done (shutdownmsg ri) := by
  simp only [callbacks, List.mem_cons, List.not_mem_nil, or_false] at h
  rcases h with rfl | rfl | rfl | rfl | rfl | rfl | rfl <;> exact ⟨_, rfl, rfl⟩

/-- The answer of a node while the server is stopping. -/
def refusal (ri : Srci) : Outgoing :=
  .page (some (shutdownmsg ri).1) { (shutdownmsg ri).2 with returnPage := some (shutdownmsg ri).1 }

/-- A request that starts now is refused, and sends nothing. -/
def Refused (rt : Wsrt) (r : Incoming) (p : Prog Rai Outgoing) (es : List ServiceEvent) : Prop :=
  ∀ ri n, r = .request ri → searestNodeFind (webstoreStart rt) ri.url = some n →
    es = [] ∧ (p = serve rt r ∨ p = .done (refusal ri))

theorem serve_stopping {rt : Wsrt} {ri : Srci} {n : Srn}
    (h : searestNodeFind (webstoreStart rt) ri.url = some n) :
    ∃ f, serve rt (.request ri) = .op (S := Rai) .shuttingDown f ∧ f true = .done (refusal ri) := by
  obtain ⟨node, hnode, url, urllen, heq⟩ := serve_found h
  obtain ⟨f, hf, htrue⟩ := callback_stopping hnode url urllen ri rt
  rw [heq, hf]
  refine ⟨_, Prog.op_bind _ _ _, ?_⟩
  rw [htrue]
  rfl

/-- A request that comes when the server is stopping is refused. -/
theorem refused_local (P : Policy) (rt : Wsrt) (m : Nat) :
    Machine.Local (serviceMachine P rt) (fun s => s.shutdown = true)
      (fun i r p es => m ≤ i → Refused rt r p es) where
  env := by
    intro e a b hs he
    have hgen : (serviceMachine P rt).Genuine (.env e a b) := he
    exact stopped_of_genuine hgen (.inl hs)
  starts i r _ ri n hr hn := ⟨rfl, .inl rfl⟩
  lock := by
    intro i r k es h hi ri n hr hn
    subst hr
    obtain ⟨f, hf, -⟩ := serve_stopping hn
    rcases (h hi ri n rfl hn).2 with hp | hp
    -- it has not begun: the first thing it does is to read the flag
    · cases hp.trans hf
    · cases hp
  unlock := by
    intro i r k es h hi ri n hr hn
    subst hr
    obtain ⟨f, hf, -⟩ := serve_stopping hn
    rcases (h hi ri n rfl hn).2 with hp | hp
    · cases hp.trans hf
    · cases hp
  op := by
    intro i r o k es a b c v h hs hx
    have hgen : (serviceMachine P rt).Genuine (.op i r o v a b) := ⟨c, hx⟩
    refine ⟨stopped_of_genuine hgen (.inl hs), ?_⟩
    intro hi ri n hr hn
    subst hr
    obtain ⟨f, hf, htrue⟩ := serve_stopping hn
    obtain ⟨rfl, hp⟩ := h hi ri n rfl hn
    rcases hp with hp | hp
    · cases hp.trans hf
      cases hx
      refine ⟨rfl, .inr ?_⟩
      rw [hs, htrue]
    · cases hp

/-! ## Every run -/

/-- The server stops when Redis does, and stays stopped. -/
structure FailsStop (P : Policy) (rt : Wsrt) (h : List ServiceEvent)
    (s : Sys Rai Server Incoming Outgoing) : Prop where
  /-- A missing reply has stopped the server, unless its thread is about to. -/
  stopped : ∀ i t, s.threads[i]? = some t → (∃ ev ∈ h, Unreplied i ev) →
    s.shared.shutdown = true ∨ ∃ k, t.code = .op (S := Rai) .handleRedisError k
  /-- It is never started again. -/
  forever : ∀ h' s', (serviceMachine P rt).Run s h' s' → s.shared.shutdown = true →
    s'.shared.shutdown = true
  /-- Requests to the nodes that start from now on are answered 503, and send
      no command. -/
  refuses : ∀ h' s', (serviceMachine P rt).Run s h' s' → s.shared.shutdown = true →
    ∀ i t ri n, s.threads.length ≤ i → s'.threads[i]? = some t → t.req = .request ri →
      searestNodeFind (webstoreStart rt) ri.url = some n →
      (∀ ev ∈ h ++ h', ev.tid ≠ some i) ∧ (t.code = serve rt t.req ∨ t.code = .done (refusal ri))

/-- Fail-stop, as long as no DEL gets lost on a running server. -/
theorem fail_stop {P : Policy} {rt : Wsrt} (db₀ : Db) {h : List ServiceEvent}
    {s : Sys Rai Server Incoming Outgoing}
    (run : (serviceMachine P rt).Run (Machine.init (Server.start db₀)) h s)
    (hdel : ∀ ev ∈ h, DelUnreplied ev → ev.pre.shutdown = true) : FailsStop P rt h s where
  stopped := by
    intro i t ht ⟨ev, hm, hun⟩
    have hstop := stopped_of_linked (raiMachine_linked run) run.genuine
    by_cases hd : DelUnreplied ev
    · exact .inl (hstop (.inr ⟨ev, hm, .inr (hdel ev hm hd)⟩))
    · have K := (watched_local P rt).kept (.init trivial) run
      rcases (K.threads i t ht).handles ⟨ev, mem_own.mpr ⟨hm, tid_of_unreplied hun⟩, hun, hd⟩ with
        hk | ⟨ev', hm', hh⟩
      · exact .inr hk
      · exact .inl (hstop (.inr ⟨ev', (mem_own.mp hm').1, .inl hh⟩))
  forever h' s' run' hs := stopped_of_linked (raiMachine_linked run') run'.genuine (.inl hs)
  refuses := by
    intro h' s' run' hs i t ri n hi ht hr hn
    have hold := ((watched_local P rt).kept (.init trivial) run).tids
    -- a second run, from the state in which the server is stopping
    have K₀ : Machine.Kept (fun s => s.shutdown = true)
        (fun i r p es => s.threads.length ≤ i → Refused rt r p es) [] s :=
      ⟨by simp, hs, fun j u hj hle => absurd (List.getElem?_eq_some_iff.mp hj).1 (by omega)⟩
    have K := (refused_local P rt s.threads.length).kept K₀ run'
    obtain ⟨hown, hp⟩ := K.threads i t ht hi ri n hr hn
    refine ⟨fun ev hm htid => ?_, hp⟩
    rcases List.mem_append.mp hm with hm | hm
    · have := hold ev hm i htid
      omega
    · have : ev ∈ own i h' := mem_own.mpr ⟨hm, htid⟩
      rw [hown] at this
      cases this

/-- A store that burns, with two connections a minute. -/
def burningRt : Wsrt := ⟨true, 60, 2, 0, 0, false, true⟩

def tokenUrl : Bytes := ascii "/store/128/" ++ lowerToken

/-- A POST whose SET gets lost, and a GET of the same token after that. -/
def failingSchedule : List (Label Incoming Env Outcome) :=
  [.spawn (.connection (ascii "192.0.2.1")), .act 0 .answered, .act 0 .answered, .act 0 .answered,
    .act 0 .answered, .spawn (processed .post tokenUrl (ascii "HelloWorld")), .act 1 .answered,
    .act 1 .answered, .act 1 (.lost true), .act 1 .answered, .act 1 .answered,
    .spawn (processed .get tokenUrl []), .act 2 .answered]

theorem fail_stop_failing :
    ∃ h s, (serviceMachine .anything burningRt).Run (Machine.init (Server.start (.empty 0))) h s ∧
      s.threads.map (·.code.isDone) = [true, true, true] ∧ s.shared.shutdown = true ∧
      FailsStop .anything burningRt h s := by
  have hrun : ((serviceMachine .anything burningRt).follow
      (Machine.init (Server.start (.empty 0))) failingSchedule).map
        (fun p => (p.2.threads.map (·.code.isDone), p.2.shared.shutdown, p.1.map exchange)) =
      some ([true, true, true], true,
        [some ⟨0, .get (ipKey (ascii "192.0.2.1")), some .nil⟩,
          some ⟨0, .set (ipKey (ascii "192.0.2.1")) (ascii "1") (some 60) false,
            some (.status (ascii "OK"))⟩,
          some ⟨1, .set lowerToken (ascii "HelloWorld") none false, none⟩, none]) := by
    decide +kernel
  obtain ⟨h, s, run, hs⟩ := Machine.exists_run_of_follow hrun
  simp only [Prod.mk.injEq] at hs
  obtain ⟨hdone, hstop, hsent⟩ := hs
  refine ⟨h, s, run, hdone, hstop, fail_stop _ run fun ev hm hdel => ?_⟩
  -- the run sends no DEL
  obtain ⟨i, k, hdel⟩ := hdel
  have hmem := List.mem_map_of_mem (f := exchange) hm
  rw [hsent, hdel] at hmem
  simp at hmem

/-- A burning GET whose DEL gets no reply. -/
def lostDelSchedule : List (Label Incoming Env Outcome) :=
  [.spawn (processed .post tokenUrl (ascii "HelloWorld")), .act 0 .answered, .act 0 .answered,
    .act 0 .answered, .act 0 .answered, .spawn (processed .get tokenUrl []), .act 1 .answered,
    .act 1 .answered, .act 1 .answered, .act 1 (.lost true), .act 1 .answered]

/-- It is over, and the server goes on as if nothing had happened. -/
theorem lost_del_goes_on :
    ∃ h s, (serviceMachine .anything burningRt).Run (Machine.init (Server.start (.empty 0))) h s ∧
      s.threads.map (·.code.isDone) = [true, true] ∧ s.shared.broken = true ∧
      s.shared.shutdown = false ∧ ¬ FailsStop .anything burningRt h s := by
  have hrun : ((serviceMachine .anything burningRt).follow
      (Machine.init (Server.start (.empty 0))) lostDelSchedule).map
        (fun p => (p.2.threads.map (·.code.isDone), p.2.shared.broken, p.2.shared.shutdown,
          p.1.map exchange)) =
      some ([true, true], true, false,
        [some ⟨0, .set lowerToken (ascii "HelloWorld") none false, some (.status (ascii "OK"))⟩,
          some ⟨1, .get lowerToken, some (.string (ascii "HelloWorld"))⟩,
          some ⟨1, .del lowerToken, none⟩]) := by decide +kernel
  obtain ⟨h, s, run, hs⟩ := Machine.exists_run_of_follow hrun
  simp only [Prod.mk.injEq] at hs
  obtain ⟨hdone, hbroken, hstop, hsent⟩ := hs
  refine ⟨h, s, run, hdone, hbroken, hstop, fun H => ?_⟩
  obtain ⟨ev, hm, hev⟩ : ∃ ev ∈ h, exchange ev = some ⟨1, .del lowerToken, none⟩ := by
    rw [← List.mem_map, hsent]
    simp
  have hlen : 1 < s.threads.length := by
    have := congrArg List.length hdone
    simp only [List.length_map, List.length_cons, List.length_nil] at this
    omega
  rcases H.stopped 1 _ (List.getElem?_eq_getElem hlen) ⟨ev, hm, _, hev⟩ with hs | ⟨k, hk⟩
  · rw [hstop] at hs
    cases hs
  · have hone := congrArg (·[1]?) hdone
    simp [hlen, hk] at hone

end FailStop

end Webstore
