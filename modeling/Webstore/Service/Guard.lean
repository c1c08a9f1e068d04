/-
  Webstore.Service.Guard

  The protocol the threads of the server follow.  They hold the RAI lock
  exactly while they send commands, if there are threads at all; the nodes send
  commands on keys of hexadecimal digits, the checks on the counter of their
  address; and they call `handle_redis_error` as soon as a command gets no
  reply and at no other time, except that nobody looks at the reply to a DEL.
-/
import Webstore.Node.Flow
import Webstore.Service

namespace Webstore

open Webstore.Libc Webstore.Sched

variable {α β : Type} {K : Bytes → Prop} {e l m : Bool}

def Cmd.isDel : Cmd → Bool
  | .del _ => true
  | _ => false

/-- The program of a thread follows the protocol: its commands are on keys of
    `K`, and it ends with the lock held or not, as `e` says.  At this point it
    holds the lock (`locked`), and a reply has gone missing that it has to
    handle next (`missed`). -/
def Guarded (K : Bytes → Prop) (e : Bool) : (locked missed : Bool) → Prog Rai α → Prop
  | locked, false, .done _ => locked = e
  | locked, false, .lock p => locked = false ∧ Guarded K e true false p
  | locked, false, .unlock p => locked = true ∧ Guarded K e false false p
  | locked, false, .op (.redisCommand c) f =>
      K c.key ∧ Guarded K e locked (!c.isDel) (f none) ∧
        ∀ reply, Guarded K e locked false (f (some reply))
  | locked, false, .op .shuttingDown f => ∀ b, Guarded K e locked false (f b)
  | _, false, .op (.fault _) _ => True
  | locked, true, .op .handleRedisError f => Guarded K e locked false (f ())
  | _, _, _ => False

/-- A thread that has missed a reply handles the error next. -/
theorem Guarded.missed {p : Prog Rai α} (h : Guarded K e l true p) :
    ∃ f, p = .op (S := Rai) .handleRedisError f ∧ Guarded K e l false (f ()) := by
  rcases p with a | p | p | ⟨c | - | - | d, f⟩
  · exact h.elim
  · exact h.elim
  · exact h.elim
  · exact h.elim
  · exact ⟨f, rfl, h⟩
  · exact h.elim
  · exact h.elim

/-- Any other thread does not. -/
theorem Guarded.not_handle {f : Unit → Prog Rai α} :
    ¬ Guarded K e l false (.op (S := Rai) .handleRedisError f) := fun h => h

/-- Guarded programs may follow one another. -/
theorem Guarded.bind {e' : Bool} {p : Prog Rai α} (hp : Guarded K e l m p) {f : α → Prog Rai β}
    (hf : ∀ a, Guarded K e' e false (f a)) : Guarded K e' l m (p >>= f) := by
  induction p generalizing l m with
  | done a =>
      cases m with
      | false =>
          -- `p` is done: it holds the lock or not as `f` expects
          obtain rfl : l = e := hp
          exact hf a
      | true => exact hp.elim
  | lock p ih =>
      cases m with
      | false => exact ⟨hp.1, ih hp.2⟩
      | true => exact hp.elim
  | unlock p ih =>
      cases m with
      | false => exact ⟨hp.1, ih hp.2⟩
      | true => exact hp.elim
  | op o k ih =>
      cases m with
      | false =>
          cases o with
          | redisCommand c =>
              exact ⟨hp.1, ih none hp.2.1, fun reply => ih (some reply) (hp.2.2 reply)⟩
          | handleRedisError => exact hp.elim
          | shuttingDown => exact fun b => ih b (hp b)
          | fault d => trivial
      | true =>
          obtain ⟨k', hk, hrest⟩ := hp.missed
          cases hk
          exact ih () hrest

theorem Guarded.mono {K' : Bytes → Prop} (h : ∀ k, K k → K' k) {p : Prog Rai α}
    (hp : Guarded K e l m p) : Guarded K' e l m p := by
  induction p generalizing l m with
  | done a =>
      cases m with
      | false => exact hp
      | true => exact hp.elim
  | lock p ih =>
      cases m with
      | false => exact ⟨hp.1, ih hp.2⟩
      | true => exact hp.elim
  | unlock p ih =>
      cases m with
      | false => exact ⟨hp.1, ih hp.2⟩
      | true => exact hp.elim
  | op o k ih =>
      cases m with
      | false =>
          cases o with
          | redisCommand c =>
              exact ⟨h _ hp.1, ih none hp.2.1, fun reply => ih (some reply) (hp.2.2 reply)⟩
          | handleRedisError => exact hp.elim
          | shuttingDown => exact fun b => ih b (hp b)
          | fault d => trivial
      | true =>
          -- behind a missing reply comes the handler of the error
          obtain ⟨k', hk, hrest⟩ := hp.missed
          cases hk
          exact ih () hrest

theorem guarded_orDie_bind {r : Except Fault α} {f : α → Prog Rai β}
    (hf : ∀ a, r = .ok a → Guarded K e l false (f a)) : Guarded K e l false (orDie r >>= f) := by
  cases r with
  | ok a => exact hf a rfl
  | error d => trivial

theorem guarded_ite {c : Prop} [Decidable c] {p q : Prog Rai α} (hp : Guarded K e l m p)
    (hq : Guarded K e l m q) : Guarded K e l m (if c then p else q) := by
  split
  · exact hp
  · exact hq

/-- With threads the lock is taken, without it is not needed. -/
theorem guarded_enter (rt : Wsrt) {p : Prog Rai α} (hp : Guarded K e rt.multithreaded false p) :
    Guarded K e false false (enter rt p) := by
  unfold enter
  split
  · rename_i hm
    rw [hm] at hp
    exact ⟨rfl, hp⟩
  · rename_i hm
    rw [Bool.not_eq_true] at hm
    rwa [hm] at hp

theorem guarded_unlock (rt : Wsrt) {p : Prog Rai α} (hp : Guarded K e false false p) :
    Guarded K e rt.multithreaded false
      (if rt.multithreaded = true then (raiUnlock >>= fun _ => p) else p) := by
  split
  · rename_i hm
    exact ⟨hm, hp⟩
  · rename_i hm
    rw [Bool.not_eq_true] at hm
    rwa [hm]

/-! ## The nodes -/

/-- A key of hexadecimal digits only. -/
def HexKey (k : Bytes) : Prop := ∀ c ∈ k, isxdigit c = true

theorem convertHashFrom_hex {input newhash out : Bytes} {i n : Nat}
    (h : convertHashFrom input newhash i n = .ok (some out))
    (hnew : ∀ c ∈ newhash, c = 0 ∨ isxdigit c = true) : ∀ c ∈ out, c = 0 ∨ isxdigit c = true := by
  induction n generalizing newhash i with
  | zero =>
      cases h
      exact hnew
  | succ n ih =>
      unfold convertHashFrom at h
      cases hload : load input i with
      | error f =>
          rw [hload] at h
          cases h
      | ok c =>
          rw [hload, ok_bind] at h
          -- one character at a time, and none but digits is written
          by_cases hx : isxdigit c = true
          · simp only [hx, Bool.not_true, Bool.false_eq_true, if_false] at h
            unfold store at h
            split at h
            · refine ih h fun d hd => ?_
              rcases List.mem_or_eq_of_mem_set hd with hd | rfl
              · exact hnew d hd
              · exact .inr ((isxdigit_tolower c).trans hx)
            · cases h
          · simp [hx] at h

/-- What `convert_hash` lets pass is a key of hexadecimal digits. -/
theorem convertHash_hex {input hash : Bytes} {len : Int}
    (h : convertHash input len = .ok (some hash)) : HexKey (cString hash) := by
  unfold convertHash at h
  split at h
  · cases h
  · cases hfrom : convertHashFrom (input ++ [0]) (List.replicate newhashSize 0) 0 len.toNat with
    | error f =>
        simp only [hfrom] at h
        cases h
    | ok o =>
        simp only [hfrom, ok_bind] at h
        cases o with
        | none => cases h
        | some newhash =>
            simp only at h
            have hnew := convertHashFrom_hex hfrom fun c hc => .inl (List.eq_of_mem_replicate hc)
            unfold store at h
            split at h
            · cases h
              intro c hc
              rw [cString_cString] at hc
              -- up to its NUL the buffer holds digits only
              have hne := nulFree_cString _ c hc
              have hmem := (List.takeWhile_subset _) hc
              rcases List.mem_or_eq_of_mem_set hmem with hmem | rfl
              · exact (hnew c hmem).resolve_left hne
              · exact absurd rfl hne
            · cases h

theorem guarded_get (req : WsReq) (rt : Wsrt) (ri : Srci) :
    Guarded HexKey false false false (get req rt ri) := by
  unfold get
  refine guarded_ite rfl (guarded_orDie_bind fun o ho => ?_)
  cases o with
  | none => rfl
  | some hash =>
      have hkey := convertHash_hex ho
      simp only [ite_raiLock, redisCommand_bind, doRedisDel]
      -- the GET, the DEL if it burns, and the way out
      refine guarded_enter rt ⟨hkey, guarded_unlock rt ?_, fun reply => guarded_ite
        ⟨hkey, guarded_unlock rt ?_, fun _ => guarded_unlock rt ?_⟩ (guarded_unlock rt ?_)⟩
      -- whatever came back, what is left sends nothing
      all_goals
        refine guarded_ite rfl ?_
        split <;> rfl

theorem setCommand_key (rt : Wsrt) (hash datastr : Bytes) :
    (setCommand rt hash datastr).key = cString hash ∧
      (setCommand rt hash datastr).isDel = false := by
  unfold setCommand
  split
  · exact ⟨rfl, rfl⟩
  · split
    · exact ⟨rfl, rfl⟩
    · split
      · exact ⟨rfl, rfl⟩
      · exact ⟨rfl, rfl⟩

theorem guarded_doRedisPost (rt : Wsrt) {hash : Bytes} (hkey : HexKey (cString hash))
    (dataptr : Bytes) (datalen : Nat) :
    Guarded HexKey false false false (doRedisPost rt hash dataptr datalen) := by
  unfold doRedisPost
  refine guarded_orDie_bind fun data _ => ?_
  obtain ⟨hset, hdel⟩ := setCommand_key rt hash (data ++ [0])
  simp only [ite_raiLock, redisCommand_bind]
  refine guarded_enter rt ⟨by rwa [hset], ?_, fun reply => guarded_unlock rt rfl⟩
  rw [hdel]
  exact guarded_unlock rt rfl

theorem guarded_post (req : WsReq) (rt : Wsrt) (ri : Srci) :
    Guarded HexKey false false false (post req rt ri) := by
  unfold post
  refine guarded_ite rfl (guarded_ite rfl (guarded_orDie_bind fun z _ => ?_))
  refine guarded_ite rfl (guarded_orDie_bind fun o ho => ?_)
  cases o with
  | none => rfl
  | some hash =>
      refine (guarded_doRedisPost rt (convertHash_hex ho) _ _).bind fun z => ?_
      exact guarded_ite rfl rfl

theorem guarded_storeNode (type : Nat) (hashlen : Int) (url : Bytes) (urllen : Int) (ri : Srci)
    (rt : Wsrt) : Guarded HexKey false false false (storeNode type hashlen url urllen ri rt) := by
  unfold storeNode
  rw [shuttingDown_bind]
  refine fun stop => guarded_ite rfl ?_
  simp only
  split
  · exact guarded_get _ rt ri
  · exact guarded_post _ rt ri
  · rfl

theorem guarded_nodecfg (url : Bytes) (urllen : Int) (ri : Srci) (rt : Wsrt) :
    Guarded HexKey false false false (nodecfg url urllen ri rt) := by
  unfold nodecfg
  rw [shuttingDown_bind]
  refine fun stop => guarded_ite rfl (guarded_ite rfl ?_)
  exact guarded_ite rfl rfl

theorem guarded_callback {node : Bytes → Int → Srci → Wsrt → Prog Rai (Bytes × Srci)}
    (h : node ∈ callbacks) (url : Bytes) (urllen : Int) (ri : Srci) (rt : Wsrt) :
    Guarded HexKey false false false (node url urllen ri rt) := by
  simp only [callbacks, List.mem_cons, List.not_mem_nil, or_false] at h
  rcases h with rfl | rfl | rfl | rfl | rfl | rfl | rfl
  · exact guarded_nodecfg url urllen ri rt
  all_goals exact guarded_storeNode _ _ url urllen ri rt

theorem guarded_request (rt : Wsrt) (ri : Srci) :
    Guarded HexKey false false false (serve rt (.request ri)) := by
  cases hf : searestNodeFind (webstoreStart rt) ri.url with
  | none =>
      obtain ⟨a, ha⟩ := serve_not_found hf
      rw [ha]
      rfl
  | some n =>
      obtain ⟨node, hnode, url, urllen, heq⟩ := serve_found hf
      rw [heq]
      exact (guarded_callback hnode url urllen ri rt).bind fun _ => rfl

/-! ## The checks -/

theorem guarded_saveIp (ip : Bytes) (found : Bool) (reqperiod : Int) :
    Guarded (· = ipKey ip) l l false (saveIp ip found reqperiod) := by
  cases found <;> exact ⟨rfl, rfl, fun _ => rfl⟩

theorem guarded_checkIp (rt : Wsrt) (ip : Bytes) :
    Guarded (· = ipKey ip) l l false (checkIp rt ip) := by
  refine ⟨rfl, rfl, fun reply => ?_⟩
  rcases reply with str | - | str | n | str
  · refine guarded_ite ?_ rfl
    exact (guarded_saveIp ip true rt.reqperiod).bind fun _ => rfl
  · exact (guarded_saveIp ip false rt.reqperiod).bind fun _ => rfl
  · rfl
  · rfl
  · rfl

theorem guarded_connection (rt : Wsrt) (ip : Bytes) :
    Guarded (· = ipKey ip) false false false (serve rt (.connection ip)) := by
  refine Guarded.bind (e := false) ?_ fun _ => rfl
  unfold wsAddrCheck
  refine guarded_ite rfl ?_
  refine Guarded.bind (e := false) ?_ fun z => guarded_ite rfl rfl
  unfold allowIp
  simp only [ite_raiLock]
  exact guarded_enter rt ((guarded_checkIp rt ip).bind fun z => guarded_unlock rt rfl)

end Webstore
