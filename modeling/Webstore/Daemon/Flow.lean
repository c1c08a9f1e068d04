/-
  Webstore.Daemon.Flow

  What an HTTP request comes to: an answer that asks nobody, a page that
  depends on whether the server is shutting down, or one call on the store.
  `exchange_cases` says which, for every request; the later modules argue
  about these three forms.
-/
import Webstore.Daemon
import Webstore.Uhd.Grammar

namespace Webstore

open Webstore.Libc Webstore.Sched

/-! ## A store node and the length it is told -/

/-- A store node looks at the URL through `convert_hash`, and only if it has the
    length of a token. -/
theorem storeNode_congr (type : Nat) {hashlen urllen urllen' : Int} {url url' : Bytes} (ri : Srci)
    (rt : Wsrt)
    (h : urllen = urllen' ∧ convertHash url urllen = convertHash url' urllen' ∨
      urllen ≠ hashlen ∧ urllen' ≠ hashlen) :
    storeNode type hashlen url urllen ri rt = storeNode type hashlen url' urllen' ri rt := by
  have hget :
      get ⟨type, hashlen, url, urllen⟩ rt ri = get ⟨type, hashlen, url', urllen'⟩ rt ri := by
    unfold get
    rcases h with ⟨rfl, hconv⟩ | ⟨hne, hne'⟩
    · simp only [hconv]
    · simp only [if_pos hne, if_pos hne']
  have hpost :
      post ⟨type, hashlen, url, urllen⟩ rt ri = post ⟨type, hashlen, url', urllen'⟩ rt ri := by
    unfold post
    rcases h with ⟨rfl, hconv⟩ | ⟨hne, hne'⟩
    · simp only [hconv]
    · simp only [if_pos hne, if_pos hne']
  simp only [storeNode, hget, hpost]

/-- The characters of the URL that a store node looks at. -/
def HashAlg.seen (a : HashAlg) (url : Bytes) (urllen : Int) : Bytes :=
  if urllen = a.hashlen then url.take a.hashlen else []

theorem HashAlg.hashlen_pos (a : HashAlg) : 0 < a.hashlen := by
  cases a <;> decide

/-- It reads as many characters as it is told, if that is how long its tokens
    are, and else none. -/
theorem HashAlg.node_seen (a : HashAlg) (rt : Wsrt) {url : Bytes} {urllen : Int} (ri : Srci)
    (h : urllen = a.hashlen → a.hashlen ≤ url.length) :
    a.node url urllen ri rt = a.node (a.seen url urllen) (a.seen url urllen).length ri rt := by
  obtain ⟨type, htype⟩ := a.node_eq
  rw [htype]
  apply storeNode_congr
  unfold HashAlg.seen
  by_cases hlen : urllen = a.hashlen
  · have hle := h hlen
    have htake : (url.take a.hashlen).length = a.hashlen := List.length_take_of_le hle
    rw [if_pos hlen, htake, hlen]
    refine .inl ⟨rfl, ?_⟩
    rw [convertHash_eq a.hashlen_lt hle, convertHash_eq a.hashlen_lt htake.ge, List.take_take,
      Nat.min_self]
  · have hpos := a.hashlen_pos
    rw [if_neg hlen, List.length_nil]
    exact .inr ⟨hlen, by omega⟩

/-- The length behind the root, as an `int`, is that of a token only if there
    are that many characters. -/
theorem le_of_toInt_rest {n h : Nat} (hh : h < 2 ^ 31)
    (heq : toInt ((toSizeT (toInt ((11 + n : Nat) : Int)) : Int) - 11) = h) : h ≤ n := by
  -- all conversions are exact modulo 2^32
  have hint : ∀ m : Int, (toInt m - m) % 2 ^ 32 = 0 := fun m =>
    Int.emod_eq_zero_of_dvd Int.dvd_bmod_sub_self
  have h₁ := hint ((11 + n : Nat) : Int)
  have h₂ := hint ((toSizeT (toInt ((11 + n : Nat) : Int)) : Int) - 11)
  unfold toSizeT at h₂ heq
  omega

/-! ## The answer to a request that has arrived -/

/-- A page as it is queued. -/
def queued (resp : Response) : MhdResult :=
  .queued ⟨if resp.code = 0 then httpOk else resp.code, cString resp.page⟩

/-- What is left of a request to a store once the server is known to be running. -/
def callAnswer (rt : Wsrt) (c : Expiry.Call Bytes Bytes) : Prog Rai MhdResult :=
  enter rt (callSection rt c) >>= fun resp => .done (queued resp)

/-- An answer with code 200. -/
def MhdResult.IsOk (r : MhdResult) : Prop := ∃ page, r = .queued ⟨httpOk, page⟩

/-- A page is queued with 200 if that is its code, or if it has none. -/
theorem isOk_queued {resp : Response} (h : (queued resp).IsOk) :
    resp.code = 0 ∨ resp.code = httpOk := by
  obtain ⟨page, h⟩ := h
  simp only [queued, MhdResult.queued.injEq, Response.mk.injEq] at h
  by_cases hz : resp.code = 0
  · exact .inl hz
  · rw [if_neg hz] at h
    exact .inr h.1

/-- A request that has arrived asks nobody, or reads `g_shutdown` and answers, or
    reads it and makes a call on the store. -/
inductive Plan (rt : Wsrt) (ri : Srci) : Prog Rai MhdResult → Prop where
  | atOnce (r : MhdResult) (hr : ¬ r.IsOk) : Plan rt ri (.done r)
  | page (resp : Response) (hr : (queued resp).IsOk → configRoot <+: ri.url) :
      Plan rt ri (.op (S := Rai) .shuttingDown fun stop =>
        .done (queued (if stop then stopping else resp)))
  | call {a : HashAlg} {sfx : Bytes} {c : Expiry.Call Bytes Bytes} (hurl : ri.url = a.root ++ sfx)
      (hc : (⟨a, ri.methodType, sfx.take a.hashlen, ri.postData⟩ : NodeReq).call = .ok c) :
      Plan rt ri (.op (S := Rai) .shuttingDown fun stop =>
        if stop then .done (queued stopping) else callAnswer rt c)

/-- A callback that ends with a page. -/
theorem respond_bind_queued (p : Prog Rai (Bytes × Srci)) :
    (p >>= fun r => .done (.queued (sent r))) = respond p >>= fun resp => .done (queued resp) := by
  unfold respond
  rw [Prog.bind_assoc]
  rfl

/-- A call is made for a token of the right length only. -/
theorem NodeReq.length_of_call {r : NodeReq} {c : Expiry.Call Bytes Bytes} (h : r.call = .ok c) :
    r.url.length = r.alg.hashlen := by
  by_contra hne
  have htoken := NodeReq.token_eq_none hne
  cases c with
  | get k =>
      have := (NodeReq.call_eq_get h).2
      rw [htoken] at this
      cases this
  | put k v =>
      have := (NodeReq.call_eq_put h).2.1
      rw [htoken] at this
      cases this

/-- A node of the store does what its plan says. -/
theorem plan_node (rt : Wsrt) {ri : Srci} {a : HashAlg} {sfx : Bytes}
    (hroot : ri.url = a.root ++ sfx) (urllen : Int)
    (hdata : ri.postDataLen = ri.postData.length) :
    Plan rt ri (respond (a.node (a.seen sfx urllen) (a.seen sfx urllen).length ri rt) >>=
      fun resp => .done (queued resp)) := by
  have hcarried :
      (⟨a, ri.methodType, a.seen sfx urllen, ri.postData⟩ : NodeReq).Carried ri :=
    ⟨rfl, rfl, hdata⟩
  have hnode := NodeReq.node_eq rt _ hcarried
  dsimp only at hnode
  rw [hnode, Prog.op_bind]
  cases hc : (⟨a, ri.methodType, a.seen sfx urllen, ri.postData⟩ : NodeReq).call with
  | error resp =>
      have hflow : (⟨a, ri.methodType, a.seen sfx urllen, ri.postData⟩ : NodeReq).flow rt =
          .done resp := by
        simp only [NodeReq.flow, hc]
      have hpage : (fun stop : Bool => (if stop then (.done stopping : Prog Rai Response) else
          NodeReq.flow rt ⟨a, ri.methodType, a.seen sfx urllen, ri.postData⟩) >>= fun resp =>
            (.done (queued resp) : Prog Rai MhdResult)) =
          fun stop => .done (queued (if stop then stopping else resp)) := by
        funext stop
        cases stop <;> simp [hflow]
      rw [hpage]
      refine .page resp fun hok => absurd (isOk_queued hok) ?_
      rcases NodeReq.call_error hc with ⟨hcode, -⟩ | ⟨hcode, -, -⟩ <;> rw [hcode] <;> decide
  | ok c =>
      -- the node saw a token, so it saw that many characters
      have hseen : a.seen sfx urllen = sfx.take a.hashlen := by
        have hlen := NodeReq.length_of_call hc
        have hpos := a.hashlen_pos
        unfold HashAlg.seen at hlen ⊢
        split at hlen
        · rw [if_pos (by assumption)]
        · exact absurd hlen (Nat.ne_of_lt hpos)
      have hcall : (fun stop : Bool => (if stop then (.done stopping : Prog Rai Response) else
          NodeReq.flow rt ⟨a, ri.methodType, a.seen sfx urllen, ri.postData⟩) >>= fun resp =>
            (.done (queued resp) : Prog Rai MhdResult)) =
          fun stop => if stop then .done (queued stopping) else callAnswer rt c := by
        funext stop
        cases stop
        · simp only [Bool.false_eq_true, if_false, NodeReq.flow, hc]
          rfl
        · rfl
      rw [hcall]
      exact .call hroot (hseen ▸ hc)

/-- A URL under a root of the store goes to the node of that root. -/
theorem plan_store (rt : Wsrt) {ri : Srci} {a : HashAlg} {sfx : Bytes}
    (hroot : ri.url = a.root ++ sfx) (hnul : NulFree ri.url)
    (hlen : ri.urllen = toInt ri.url.length) (hdata : ri.postDataLen = ri.postData.length) :
    Plan rt ri (uhdAnswer (webstoreStart rt) ri) := by
  obtain ⟨n, hn, hnroot, hcb⟩ := exists_store_node rt a
  have hfind := find_webstoreStart rt hnul hn (by rw [hnroot, hroot]; exact List.prefix_append _ _)
  have hdrop : ri.url.drop n.root.length = sfx := by
    rw [hnroot, hroot, List.drop_left']
    rfl
  rw [uhdAnswer_found hfind (callback_of_mem hn).1 hcb, hdrop, hnroot, a.length_root,
    a.node_seen rt ri, respond_bind_queued]
  · exact plan_node rt hroot _ hdata
  · intro heq
    refine le_of_toInt_rest (h := a.hashlen) (n := sfx.length) ?_ ?_
    · exact Nat.lt_trans a.hashlen_lt (by decide)
    · rw [hlen, hroot, List.length_append, a.length_root] at heq
      exact heq

/-- The configuration page is one page or the other. -/
theorem nodecfg_eq (url : Bytes) (urllen : Int) (ri : Srci) (rt : Wsrt) :
    ∃ r, nodecfg url urllen ri rt =
      .op (S := Rai) .shuttingDown fun stop => .done (if stop then shutdownmsg ri else r) := by
  unfold nodecfg
  rw [shuttingDown_bind]
  -- what the node does while the server is running: no option makes it ask anybody
  have hquiet : ∀ {p : Prog Rai (Bytes × Srci)}, (∃ r, p = .done r) → ∃ r,
      (Prog.op (S := Rai) .shuttingDown fun stop => if stop then .done (shutdownmsg ri) else p) =
        .op (S := Rai) .shuttingDown fun stop => .done (if stop then shutdownmsg ri else r) := by
    rintro _ ⟨r, rfl⟩
    refine ⟨r, congrArg (Prog.op (S := Rai) .shuttingDown) (funext fun stop => ?_)⟩
    cases stop <;> rfl
  apply hquiet
  split
  · exact ⟨_, rfl⟩
  · dsimp only
    split
    · exact ⟨_, rfl⟩
    · exact ⟨_, rfl⟩

/-- Whatever the URL, the answer goes by a plan. -/
theorem plan_uhdAnswer (rt : Wsrt) {ri : Srci} (hnul : NulFree ri.url)
    (hlen : ri.urllen = toInt ri.url.length) (hdata : ri.postDataLen = ri.postData.length) :
    Plan rt ri (uhdAnswer (webstoreStart rt) ri) := by
  -- a root of the store, the root of the configuration, or neither
  by_cases hstore : ∃ root ∈ storeRoots, root <+: ri.url
  · obtain ⟨root, hmem, sfx, hsfx⟩ := hstore
    obtain ⟨a, rfl⟩ := exists_root hmem
    exact plan_store rt hsfx.symm hnul hlen hdata
  by_cases hcfg : configRoot <+: ri.url
  · obtain ⟨n, hn, hnroot, hcb⟩ := exists_config_node rt
    have hfind := find_webstoreStart rt hnul hn (hnroot ▸ hcfg)
    obtain ⟨r, hr⟩ := nodecfg_eq (ri.url.drop n.root.length)
      (toInt ((toSizeT ri.urllen : Int) - n.root.length)) ri rt
    rw [uhdAnswer_found hfind (callback_of_mem hn).1 hcb, hr, Prog.op_bind]
    -- the page is made whether or not it is sent
    have hpage : (fun stop : Bool => (.done (if stop then shutdownmsg ri else r) >>=
        fun r => .done (.queued (sent r)) : Prog Rai MhdResult)) =
        fun stop => .done (queued (if stop then stopping else ⟨r.2.returnCode, r.1⟩)) := by
      funext stop
      cases stop <;> rfl
    rw [hpage]
    exact .page _ fun _ => hcfg
  · have hfind : searestNodeFind (webstoreStart rt) ri.url = none := by
      refine searestNodeFind_none webstoreStart_rootsNulFree hnul fun n hn hp => ?_
      have hroot : n.root ∈ configRoot :: storeRoots :=
        roots_webstoreStart ▸ List.mem_map_of_mem hn
      rcases List.mem_cons.mp hroot with h | h
      · exact hcfg (h ▸ hp)
      · exact hstore ⟨n.root, h, hp⟩
    obtain ⟨resp, hans, hcode⟩ := uhdAnswer_none hfind
    rw [hans]
    refine .atOnce _ ?_
    rintro ⟨page, ⟨⟩⟩
    exact absurd (a := httpOk = httpNotFound) hcode (by decide)

/-! ## The request as a whole -/

/-- The record of a request that has arrived. -/
structure Exchange.Arrived (x : Exchange) (ri : Srci) : Prop where
  url : ∃ url, x.hdr.url = some url ∧ ri.url = cString url
  method : ∃ method, x.hdr.method = some method ∧ methodType method = some ri.methodType
  body : ri.postData = x.body
  limit : x.body.length = x.hdr.announced

/-- The request makes this call on the store. -/
def Exchange.Calls (rt : Wsrt) (x : Exchange) (c : Expiry.Call Bytes Bytes) : Prop :=
  x.body.length ≤ rt.maxPostDataSize.toNat ∧ ∃ ri, x.Arrived ri ∧ ∃ (a : HashAlg) (sfx : Bytes),
    ri.url = a.root ++ sfx ∧
      (⟨a, ri.methodType, sfx.take a.hashlen, x.body⟩ : NodeReq).call = .ok c

/-- The request is for `/config/`. -/
def Exchange.AsksConfig (x : Exchange) : Prop :=
  ∃ url, x.hdr.url = some url ∧ configRoot <+: cString url

/-- What a request comes to: an answer that asks nobody, one that depends on
    `g_shutdown` only, or a call on the store. -/
inductive Exchange.Form (rt : Wsrt) (x : Exchange) : Prog Rai MhdResult → Prop where
  | atOnce (r : MhdResult) (hr : ¬ r.IsOk) : Form rt x (.done r)
  | page (resp : Response) (hr : (queued resp).IsOk → x.AsksConfig) :
      Form rt x (.op (S := Rai) .shuttingDown fun stop =>
        .done (queued (if stop then stopping else resp)))
  | call {c : Expiry.Call Bytes Bytes} (hc : x.Calls rt c) :
      Form rt x (.op (S := Rai) .shuttingDown fun stop =>
        if stop then .done (queued stopping) else callAnswer rt c)

/-- A request is refused, or it arrives and is answered. -/
theorem exchange_arrives {rt : Wsrt} (hrt : rt.LimitOk) (x : Exchange) :
    uhdRequest (webstoreStart rt) x.hdr x.chunks = .done .no ∨
    ∃ ri, x.Arrived ri ∧ NulFree ri.url ∧ ri.urllen = toInt ri.url.length ∧
      ri.postDataLen = ri.postData.length ∧ x.body.length ≤ rt.maxPostDataSize.toNat ∧
      uhdRequest (webstoreStart rt) x.hdr x.chunks = uhdAnswer (webstoreStart rt) ri := by
  obtain ⟨hmax, hlong⟩ := hrt.maxContentLength
  rcases uhdReceive_headers (webstoreStart rt) x.hdr with
    ⟨hp, url, method, m, hurl, hmethod, hadm, h⟩ | ⟨cls, h, -, -⟩
  · have hreq := (calls_accepted hp h (hadm.length.trans hlong) x.pieces).2.2
    by_cases hall : x.chunks.flatten.length = x.hdr.announced
    · rw [if_pos hall] at hreq
      have hlen : ((x.hdr.opened url m).received x.chunks).urllen =
          toInt ((x.hdr.opened url m).received x.chunks).url.length := by
        rw [Srci.urllen_received, Headers.urllen_opened]
        rfl
      exact .inr ⟨(x.hdr.opened url m).received x.chunks,
        ⟨⟨url, hurl, rfl⟩, ⟨method, hmethod, hadm.method⟩, rfl, hall⟩, nulFree_cString url, hlen,
        rfl, hmax ▸ hall.trans_le hadm.length, hreq⟩
    · rw [if_neg hall] at hreq
      exact .inl hreq
  · exact .inl (calls_refused h x.chunks).2.2

/-- A request is refused before its body is complete, or it is answered by a plan.
    -/
theorem exchange_form {rt : Wsrt} (hrt : rt.LimitOk) (x : Exchange) :
    x.Form rt (uhdRequest (webstoreStart rt) x.hdr x.chunks) := by
  rcases exchange_arrives hrt x with h | ⟨ri, harr, hnul, hlen, hdata, hle, h⟩
  · rw [h]
    exact .atOnce _ nofun
  · rw [h]
    have hplan := plan_uhdAnswer rt hnul hlen hdata
    revert hplan
    generalize uhdAnswer (webstoreStart rt) ri = p
    rintro (⟨r, hr⟩ | ⟨resp, hr⟩ | ⟨hroot, hc⟩)
    · exact .atOnce r hr
    · obtain ⟨url, hurl, heq⟩ := harr.url
      exact .page resp fun hok => ⟨url, hurl, heq ▸ hr hok⟩
    · rw [harr.body] at hc
      exact .call ⟨hle, ri, harr, _, _, hroot, hc⟩

/-! ## The commands of the server -/

/-- The commands an arrival may send. -/
inductive Arrival.Sends (rt : Wsrt) : Arrival → Cmd → Prop where
  | read (ip : Bytes) : Sends rt (.connection ip) (.get (ipKey ip))
  | save (ip : Bytes) (found : Bool) :
      Sends rt (.connection ip) (saveCommand ip found rt.reqperiod)
  | get {x : Exchange} {k : Bytes} (h : x.Calls rt (.get k)) : Sends rt (.exchange x) (.get k)
  | burn {x : Exchange} {k : Bytes} (h : x.Calls rt (.get k)) : Sends rt (.exchange x) (.del k)
  | put {x : Exchange} {k v : Bytes} (h : x.Calls rt (.put k v)) :
      Sends rt (.exchange x) (storeCommand rt k v)

/-- A thread that sends `C` commands only, and does not die. -/
def RaiOp.Sends (C : Cmd → Prop) : RaiOp → Prop
  | .redisCommand c => C c
  | .fault _ => False
  | _ => True

theorem RaiOp.Sends.any {C : Cmd → Prop} {o : RaiOp} (h : o.Sends C) : o.Sends fun _ => True := by
  cases o <;> trivial

end Webstore
