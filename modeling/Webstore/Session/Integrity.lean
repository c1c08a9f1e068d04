/-
  Webstore.Session.Integrity

  What `ws_get` writes is what `ws_post` was given.  Messages are kept under
  their digests, so a reader who knows a token knows what to expect; the
  theorem says that the server, whatever becomes of its commands and whoever
  else is served, hands out nothing else, and where the one exception is: a
  message that looks compressed and is not.
-/
import Webstore.Client.Deliver
import Webstore.Daemon.Origin
import Webstore.Session

namespace Webstore

open Webstore.Libc Webstore.Sched

variable {rt : Wsrt} {P : Policy}

/-! ## URLs and keys -/

/-- A path is read in one way only. -/
theorem root_append_inj {a b : HashAlg} {s t : Bytes} (h : a.root ++ s = b.root ++ t) :
    a = b ∧ s = t := by
  obtain ⟨hroot, rfl⟩ := List.append_inj h (by rw [a.length_root, b.length_root])
  refine ⟨?_, rfl⟩
  cases a <;> cases b <;> first | rfl | (exact absurd hroot (by decide))

/-- The call of a request is about the token in its URL. -/
theorem Exchange.Calls.key_eq {x : Exchange} {c : Expiry.Call Bytes Bytes} (h : x.Calls rt c)
    {a : HashAlg} {token : Bytes} (hurl : x.hdr.url = some (a.root ++ cString token))
    (hlen : (cString token).length = a.hashlen) : c.key = (cString token).map tolower := by
  obtain ⟨-, ri, harr, b, sfx, hroot, hc⟩ := h
  obtain ⟨url, hurl', hri⟩ := harr.url
  obtain rfl : a.root ++ cString token = url := Option.some.inj (hurl.symm.trans hurl')
  rw [hri, cString_of_nulFree (nulFree_path a token)] at hroot
  obtain ⟨rfl, rfl⟩ := root_append_inj hroot
  have htake : (cString token).take a.hashlen = cString token := List.take_of_length_le hlen.le
  rw [htake] at hc
  have htoken : ∀ k, (⟨a, ri.methodType, cString token, x.body⟩ : NodeReq).token = some k →
      k = (cString token).map tolower := by
    intro k hk
    simp only [NodeReq.token, Option.ite_none_right_eq_some, Option.some.injEq] at hk
    exact hk.2.symm
  cases c with
  | get k => exact htoken k (NodeReq.call_eq_get hc).2
  | put k v => exact htoken k (NodeReq.call_eq_put hc).2.1

/-- A GET gets and a POST puts. -/
theorem Exchange.Calls.method {x : Exchange} {c : Expiry.Call Bytes Bytes} (h : x.Calls rt c) :
    (x.hdr.method = some (ascii "GET") → ∃ k, c = .get k) ∧
      (x.hdr.method = some (ascii "POST") → ∃ k v, c = .put k v) := by
  obtain ⟨-, ri, harr, b, sfx, -, hc⟩ := h
  obtain ⟨method, hm, hmt⟩ := harr.method
  have hgets : methodType (ascii "GET") = some .get := by decide
  have hposts : methodType (ascii "POST") = some .post := by decide
  constructor
  · intro hget
    obtain rfl : ascii "GET" = method := Option.some.inj (hget.symm.trans hm)
    have htype : ri.methodType = .get := Option.some.inj (hmt.symm.trans hgets)
    cases c with
    | get k => exact ⟨k, rfl⟩
    | put k v => exact absurd (htype.symm.trans (NodeReq.call_eq_put hc).1) nofun
  · intro hpost
    obtain rfl : ascii "POST" = method := Option.some.inj (hpost.symm.trans hm)
    have htype : ri.methodType = .post := Option.some.inj (hmt.symm.trans hposts)
    cases c with
    | get k => exact absurd (htype.symm.trans (NodeReq.call_eq_get hc).1) nofun
    | put k v => exact ⟨k, v, rfl⟩

/-- The path of a token is not that of the configuration. -/
theorem not_asksConfig {x : Exchange} {a : HashAlg} {token : Bytes}
    (hurl : x.hdr.url = some (a.root ++ cString token)) : ¬ x.AsksConfig := by
  rintro ⟨url, hurl', hp⟩
  obtain rfl : a.root ++ cString token = url := Option.some.inj (hurl.symm.trans hurl')
  rw [cString_of_nulFree (nulFree_path a token)] at hp
  have hmem : a.root ∈ configRoot :: storeRoots := List.mem_cons_of_mem _ a.root_mem
  have hne : configRoot ≠ a.root := by cases a <;> decide
  rcases List.prefix_or_prefix_of_prefix hp (List.prefix_append a.root (cString token)) with h | h
  · exact hne (roots_apart _ List.mem_cons_self _ hmem h)
  · exact hne (roots_apart _ hmem _ List.mem_cons_self h).symm

/-- The path that libcurl asks for. -/
theorem Exchange.Carries.path {x : Exchange} {origin path method body : Bytes}
    (h : x.Carries origin (origin ++ path) method body) : x.hdr.url = some path := by
  obtain ⟨path', heq, hurl⟩ := h.url
  obtain rfl := List.append_cancel_left heq
  exact hurl

/-! ## What was posted -/

/-- Compressed or as it is. -/
theorem payload_cases (gComp : Bool) (lib : Miniz) (m : Bytes) :
    SentRaw gComp lib m ∧ payload gComp lib m = m ∨
      SentCompressed lib m (payload gComp lib m) := by
  by_cases hraw : SentRaw gComp lib m
  · exact .inl ⟨hraw, payload_of_sentRaw hraw⟩
  · simp only [SentRaw, not_or, not_forall, not_not] at hraw
    obtain ⟨hcomp, out, hout, hne, hshort⟩ := hraw
    have hsent : SentCompressed lib m out := ⟨hout, hne, hshort⟩
    have htrue : gComp = true := by simpa using hcomp
    rw [htrue, payload_of_sentCompressed hsent]
    exact .inr hsent

/-- What is written is the message, or else a message that looks compressed was
    sent as it is. -/
theorem written_cases {gComp : Bool} {lib : Miniz} (hlib : lib.Sound) {m out : Bytes}
    (h : written lib (payload gComp lib m) = some out) :
    out = m ∨ SentRaw gComp lib m ∧ Marked m ∧
      lib.uncompress (10 * m.length % 2 ^ 64) m = .ok out := by
  unfold written at h
  rcases payload_cases gComp lib m with ⟨hraw, hp⟩ | hsent
  · rw [hp] at h
    split at h
    · rename_i hmark
      refine .inr ⟨hraw, hmark, ?_⟩
      have hne : out ≠ [] := by
        rintro rfl
        unfold inflated at h
        split at h
        · split at h
          · cases h
          · cases h
            contradiction
        · cases h
      exact (inflated_eq_some hne).mp h
    · exact .inl (Option.some.inj h).symm
  · obtain ⟨hlong, hprefix⟩ := hlib.marker hsent.compressed
    have hmark : Marked (payload gComp lib m) := ⟨by omega, hprefix⟩
    rw [if_pos hmark] at h
    unfold inflated at h
    -- the stream is refused, or it gives back what it was made of
    cases hback : lib.uncompress (10 * (payload gComp lib m).length % 2 ^ 64)
        (payload gComp lib m) with
    | error err =>
        rw [hback] at h
        cases h
    | ok back =>
        rw [hback] at h
        simp only [Option.ite_none_left_eq_some, Option.some.injEq] at h
        obtain rfl := h.2
        exact .inl (hlib.exact hsent.compressed hback)

/-- A block is sent as it is in the buffer. -/
theorem encodeMsg_block {heap : Heap} {gComp : Bool} {lib : Miniz} {m z85block : Bytes}
    (hm : m ≠ []) (h : encodeMsg heap gComp lib m m.length = .ok (some z85block)) :
    cString z85block = Z85.block (payload gComp lib m) := by
  rw [encodeMsg_eq heap gComp lib hm] at h
  split at h
  · cases h
    exact cString_append_nul (Z85.nulFree_block _) []
  · cases h

/-- What `ws_get -f` writes of a block. -/
theorem handlePage_block {heap : Heap} {lib : Miniz} {p : Bytes} (hp : p ≠ []) {r : CurlResp}
    (hr : r = ⟨(Z85.block p).length, some (Z85.block p ++ [0])⟩) {out : Bytes}
    (h : handlePage heap lib true r = .ok (some out)) : written lib p = some out := by
  have hdecode := decodeMsg_block heap hp [0]
  subst hr
  by_cases hfit : 20 * ((p.length + 3) / 4) < 2 ^ 64
  · rw [if_pos hfit] at hdecode
    rw [handlePage_eq heap lib hdecode] at h
    exact Except.ok.inj h
  · rw [if_neg hfit] at hdecode
    simp only [handlePage, hdecode, error_bind] at h
    cases h

/-! ## Addresses -/

/-- Without `-t` a message goes to the URL of its token. -/
theorem postAddress_digest {gc : Gcrypt} {host : Bytes} {port : UInt16} {alg : Int} {msg : Bytes}
    {len : Nat} {secure : Bool} {token url : Bytes}
    (h : postAddress gc none host port alg msg len secure = .ok (some (token, url))) :
    createToken gc alg msg len = .ok (some token) ∧
      createUrl host port token secure = some url := by
  unfold postAddress at h
  -- without a digest or a URL nothing is posted
  cases hcreate : createToken gc alg msg len with
  | error f =>
      simp only [hcreate] at h
      cases h
  | ok made =>
      cases made with
      | none =>
          simp only [hcreate] at h
          cases h
      | some made =>
          simp only [hcreate, ok_bind] at h
          cases hurl : createUrl host port made secure with
          | none =>
              simp only [hurl] at h
              cases h
          | some url' =>
              simp only [hurl] at h
              cases h
              exact ⟨rfl, hurl⟩

/-- A token that is made is the digest of a message. -/
theorem exists_digest {gc : Gcrypt} (hgc : gc.Documented) {alg : Int} {msg token : Bytes}
    (h : createToken gc alg msg msg.length = .ok (some token)) : ∃ digest, token = hex digest := by
  cases halg : gcalgOf alg with
  | none =>
      simp only [createToken, halg] at h
      cases h
  | some gcalg =>
      rw [createToken_eq hgc halg (Nat.le_refl msg.length)] at h
      cases h
      exact ⟨_, rfl⟩

/-- A token that has a URL has the length of a store. -/
theorem hashlen_of_createUrl {host : Bytes} {port : UInt16} {token : Bytes} {secure : Bool}
    {url : Bytes} (h : createUrl host port token secure = some url) :
    ∃ a : HashAlg, (cString token).length = a.hashlen := by
  refine hashlen_of_urlNode (.inl ?_)
  rw [← isSome_createUrl host port token secure, h]
  rfl

/-- With or without `-t`, the URL is that of the token. -/
theorem createUrl_of_postAddress {gc : Gcrypt} {gToken : Option Bytes} {host : Bytes}
    {port : UInt16} {alg : Int} {msg : Bytes} {len : Nat} {secure : Bool} {token url : Bytes}
    (h : postAddress gc gToken host port alg msg len secure = .ok (some (token, url))) :
    createUrl host port token secure = some url := by
  cases gToken with
  | none => exact (postAddress_digest h).2
  | some given =>
      unfold postAddress at h
      simp only [pure_ok, ok_bind] at h
      cases hurl : createUrl host port (cString given) secure with
      | none =>
          simp only [hurl] at h
          cases h
      | some url' =>
          simp only [hurl] at h
          cases h
          exact hurl

/-- The path of a URL that was not cut off. -/
theorem Exchange.Carries.token {x : Exchange} {host : Bytes} {port : UInt16} {secure : Bool}
    {token url method body : Bytes} (h : x.Carries (urlOrigin host port secure) url method body)
    (hurl : createUrl host port token secure = some url) (hfits : UrlFits host port token secure) :
    ∃ a : HashAlg, (cString token).length = a.hashlen ∧
      x.hdr.url = some (a.root ++ cString token) := by
  obtain ⟨a, ha⟩ := hashlen_of_createUrl hurl
  rw [createUrl_eq ha hfits, Option.some.injEq] at hurl
  exact ⟨a, ha, (hurl ▸ h).path⟩

/-! ## The ends of the clients -/

theorem bind_eq_ok {α β : Type} {x : Except Fault α} {f : α → Except Fault β} {b : β}
    (h : (x >>= f) = .ok b) : ∃ a, x = .ok a ∧ f a = .ok b := by
  cases x with
  | error e => cases h
  | ok a => exact ⟨a, rfl, h⟩

/-- libcurl is content with a response only. -/
theorem wsCurl_response {e : CurlEnd} {z httpCode : Int} {r : CurlResp}
    (h : wsCurl e = .ok (z, httpCode, r)) (hz : z = 0) :
    ∃ pieces, e = .response httpCode pieces ∧ collect CurlResp.zero pieces = .ok r := by
  cases e with
  | noHandle =>
      cases h
      cases hz
  | failed pieces =>
      obtain ⟨r', -, h⟩ := bind_eq_ok h
      cases h
      cases hz
  | response code pieces =>
      obtain ⟨r', hr, h⟩ := bind_eq_ok h
      cases h
      exact ⟨pieces, rfl, hr⟩

/-- `ws_get` writes the page of a 200. -/
theorem wsGetMain_written {libs : ClientLibs} {g : GetArgs} {perform : Bytes → CurlEnd}
    {out : Bytes} (h : wsGetMain libs g perform = .ok (0, some out)) :
    ∃ url pieces r, createUrl g.host g.port g.token g.secure = some url ∧
      perform url = .response 200 pieces ∧ collect CurlResp.zero pieces = .ok r ∧
      handlePage libs.heap libs.miniz g.toFile r = .ok (some out) := by
  unfold wsGetMain at h
  cases hurl : createUrl g.host g.port g.token g.secure with
  | none =>
      simp only [hurl] at h
      cases h
  | some url =>
      simp only [hurl] at h
      obtain ⟨⟨z, httpCode, r⟩, hcurl, h⟩ := bind_eq_ok h
      dsimp only at h
      -- any other end is an exit with 1
      by_cases hz : z = 0
      · rw [if_neg (not_not_intro hz)] at h
        by_cases hcode : httpCode = 200
        · rw [if_neg (not_not_intro hcode)] at h
          obtain ⟨o, hpage, h⟩ := bind_eq_ok h
          cases h
          obtain ⟨pieces, hend, hr⟩ := wsCurl_response hcurl hz
          exact ⟨url, pieces, r, rfl, hcode ▸ hend, hr, hpage⟩
        · rw [if_pos hcode] at h
          cases h
      · rw [if_pos hz] at h
        cases h

/-- `ws_post` prints the token of a 200. -/
theorem wsPostMain_printed {libs : ClientLibs} {gcinit : Int} {g : PostArgs}
    {perform : Bytes → Bytes → CurlEnd} {z : Int} {token : Bytes}
    (h : wsPostMain libs gcinit g perform = .ok (z, some token)) :
    z = 0 ∧ ∃ z85block url pieces,
      encodeMsg libs.heap g.comp libs.miniz g.message g.message.length = .ok (some z85block) ∧
      postAddress libs.gcrypt g.token g.host g.port g.alg g.message g.message.length g.secure =
        .ok (some (token, url)) ∧
      perform url (cString z85block) = .response 200 pieces := by
  unfold wsPostMain at h
  split at h
  · cases h
  obtain ⟨made, hmade, h⟩ := bind_eq_ok h
  cases made with
  | none => cases h
  | some made =>
      cases h
      refine ⟨rfl, ?_⟩
      obtain ⟨enc, henc, h⟩ := bind_eq_ok hmade
      cases enc with
      | none => cases h
      | some z85block =>
          obtain ⟨addr, haddr, h⟩ := bind_eq_ok h
          cases addr with
          | none => cases h
          | some addr =>
              obtain ⟨token', url⟩ := addr
              obtain ⟨err, herr, h⟩ := bind_eq_ok h
              by_cases hz : err = 0
              · rw [if_neg (not_not_intro hz)] at h
                cases h
                obtain ⟨⟨curlerr, httpCode, r⟩, hcurl, herr⟩ := bind_eq_ok herr
                dsimp only at herr
                -- an error of curl, or a status other than 200, is an error of `post_msg`
                by_cases hc : curlerr = 0
                · rw [if_neg (not_not_intro hc)] at herr
                  by_cases hcode : httpCode = 200
                  · obtain ⟨pieces, hend, -⟩ := wsCurl_response hcurl hc
                    exact ⟨z85block, url, pieces, henc, haddr, hcode ▸ hend⟩
                  · rw [if_pos hcode] at herr
                    cases herr
                    exact absurd hz (by decide)
                · rw [if_pos hc] at herr
                  cases herr
                  exact absurd hz (by decide)
              · rw [if_pos hz] at h
                cases h

/-! ## What was posted and what is written -/

/-- Under this key only `ws_post` posts, and without `-t`. -/
def OnlyPosted (rt : Wsrt) (gc : Gcrypt) (lib : Miniz) (s : DaemonSys) (k : Bytes) : Prop :=
  ∀ (j : Nat) (y : Exchange) (v : Bytes) (p : Prog Rai Departure),
    s.threads[j]? = some ⟨.exchange y, p⟩ → y.Calls rt (.put k v) →
    ∃ heap g, y.PostedBy ⟨heap, gc, lib⟩ g ∧ g.token = none

/-- A message that was posted under the token, and what has been written of it. -/
structure Authentic (gc : Gcrypt) (lib : Miniz) (s : DaemonSys) (token out : Bytes) (g : PostArgs) :
    Prop where
  posted : ∃ (j : Nat) (y : Exchange) (p : Prog Rai Departure) (heap : Heap),
    s.threads[j]? = some ⟨.exchange y, p⟩ ∧ y.PostedBy ⟨heap, gc, lib⟩ g
  digest : createToken gc g.alg g.message g.message.length =
    .ok (some ((cString token).map tolower))
  written : out = g.message ∨
    SentRaw g.comp lib g.message ∧ Marked g.message ∧
      lib.uncompress (10 * g.message.length % 2 ^ 64) g.message = .ok out

/-- The token of a message that was posted is the key it is kept under. -/
theorem Exchange.PostedBy.kept {gc : Gcrypt} (hgc : gc.Documented) {lib : Miniz} {heap : Heap}
    {y : Exchange} {g : PostArgs} (h : y.PostedBy ⟨heap, gc, lib⟩ g) (htoken : g.token = none)
    {k v : Bytes} (hc : y.Calls rt (.put k v)) :
    createToken gc g.alg g.message g.message.length = .ok (some k) ∧
      v = Z85.block (payload g.comp lib g.message) := by
  obtain ⟨z85block, token, url, hblock, haddr, hcarries, hfits⟩ := h.sent
  rw [htoken] at haddr
  obtain ⟨hcreate, hurl⟩ := postAddress_digest haddr
  obtain ⟨digest, rfl⟩ := exists_digest hgc hcreate
  obtain ⟨a, ha, hpath⟩ := hcarries.token hurl hfits
  -- a digest in hexadecimal is its own key
  have hkey := hc.key_eq hpath ha
  rw [cString_of_nulFree (nulFree_hex digest), map_tolower_hex, Expiry.Call.key] at hkey
  exact ⟨hkey ▸ hcreate, by rw [hc.accepted.1, hcarries.body, encodeMsg_block h.nonempty hblock]⟩

/-- The page is a block, and it is written as the receiver understands it. -/
theorem written_of_page {gComp : Bool} {lib : Miniz} (hlib : lib.Sound) {heap : Heap}
    {m out : Bytes} (hm : m ≠ []) {pieces : List Bytes} {r : CurlResp}
    (hflat : pieces.flatten = Z85.block (payload gComp lib m))
    (hr : collect CurlResp.zero pieces = .ok r)
    (h : handlePage heap lib true r = .ok (some out)) :
    out = m ∨ SentRaw gComp lib m ∧ Marked m ∧
      lib.uncompress (10 * m.length % 2 ^ 64) m = .ok out := by
  have hp := payload_ne_nil gComp lib hm
  have hne : pieces ≠ [] := by
    rintro rfl
    have hlen := Z85.length_block hp
    rw [← hflat] at hlen
    simp at hlen
    omega
  rw [collect_eq hne, hflat, Except.ok.injEq] at hr
  exact written_cases hlib (handlePage_block hp hr.symm h)

/-- `ws_get -f` writes a message that has the token for its digest, as some
    `ws_post` was given it.  Nothing is stored under the token at first, and only
    `ws_post` posts under it. -/
theorem ws_get_authentic (hrt : rt.LimitOk) {gc : Gcrypt} (hgc : gc.Documented) {lib : Miniz}
    (hlib : lib.Sound) {a : Server} {h : List DaemonEvent} {s : DaemonSys}
    (run : (daemonMachine P rt).Run (Machine.init a) h s) {g : GetArgs} (hfile : g.toFile = true)
    (hnew : a.db.get ((cString g.token).map tolower) = none)
    (honly : OnlyPosted rt gc lib s ((cString g.token).map tolower)) {i : Nat} {x : Exchange}
    {d : MhdResult} (ht : s.threads[i]? = some ⟨.exchange x, .done (.result d)⟩)
    (hx : x.AskedBy g) {perform : Bytes → CurlEnd} (hnet : ∀ url, Relays d (perform url))
    {heap : Heap} {out : Bytes} (hmain : wsGetMain ⟨heap, gc, lib⟩ g perform = .ok (0, some out)) :
    ∃ gp, Authentic gc lib s g.token out gp := by
  obtain ⟨url, hurl, hcarries⟩ := hx.sent
  obtain ⟨al, ha, hpath⟩ := hcarries.token hurl hx.fits
  obtain ⟨url', pieces, r, -, hend, hr, hpage⟩ := wsGetMain_written hmain
  rw [hfile] at hpage
  -- the response is the answer of the server
  have hrel := hnet url'
  rw [hend] at hrel
  obtain ⟨page, rfl, hflat⟩ := hrel
  cases daemon_origin hrt run ht with
  | config hcfg => exact absurd hcfg (not_asksConfig hpath)
  | stored hcall =>
      obtain ⟨k, ⟨⟩⟩ := hcall.method.1 hcarries.method
  | @read k e past later pre post hcall hh hcut horigin hfresh =>
      have hkey : k = (cString g.token).map tolower := hcall.key_eq hpath ha
      subst hkey
      cases horigin with
      | initial h₀ =>
          rw [hnew] at h₀
          cases h₀
      | @posted before mid j y reply pre' post' hpast hput =>
          have hmem : (.op j (.exchange y) (.redisCommand
              (storeCommand rt ((cString g.token).map tolower) e.val)) reply pre' post' :
                DaemonEvent) ∈ h := by
            rw [hh, hpast]
            simp
          obtain ⟨⟨req, p⟩, htj, rfl⟩ := run.thread_of_mem hmem
          obtain ⟨heap', gp, hposted, htoken⟩ := honly j y e.val p htj hput
          obtain ⟨hdigest, hval⟩ := hposted.kept hgc htoken hput
          refine ⟨gp, ⟨j, y, p, heap', htj, hposted⟩, hdigest, ?_⟩
          refine written_of_page hlib hposted.nonempty ?_ hr hpage
          rw [hflat, hcut, hval, cString_of_nulFree (Z85.nulFree_block _)]

/-! A message is posted and fetched. -/

/-- The libraries of both clients. -/
def plainLibs : ClientLibs := ⟨Heap.blank, helloGcrypt, runLength⟩

def helloArgs : PostArgs :=
  ⟨ascii "localhost", 8080, 1, none, false, false, ascii "hello"⟩

/-- The MD5 of the message. -/
def helloToken : Bytes := ascii "5d41402abc4b2a76b9719d911017c592"

def helloPath : Bytes := ascii "/store/128/" ++ helloToken

def sentHello : Exchange :=
  ⟨⟨some helloPath, some (ascii "POST"), some (ascii "HTTP/1.1"), some (ascii "11")⟩,
    [Z85.block (ascii "hello")], by unfold Pieces; decide +kernel⟩

def askedArgs : GetArgs := ⟨ascii "localhost", 8080, helloToken, true, false⟩

def askedHello : Exchange :=
  ⟨⟨some helloPath, some (ascii "GET"), some (ascii "HTTP/1.1"), none⟩, [], pieces_nil⟩

theorem urlFits_hello : UrlFits (ascii "localhost") 8080 helloToken false := by
  intro node hnode
  have h128 : urlNode helloToken = some (ascii "128") := by decide +kernel
  obtain rfl : ascii "128" = node := Option.some.inj (h128.symm.trans hnode)
  decide +kernel

theorem sentHello_posted : sentHello.PostedBy plainLibs helloArgs where
  nonempty := by decide
  sent := by
    refine ⟨Z85.block (ascii "hello") ++ [0], helloToken,
      urlOrigin (ascii "localhost") 8080 false ++ helloPath, ?_, ?_,
      ⟨⟨helloPath, rfl, rfl⟩, rfl, ?_⟩, urlFits_hello⟩
    · decide +kernel
    · decide +kernel
    · decide +kernel

theorem askedHello_asked : askedHello.AskedBy askedArgs where
  sent := ⟨urlOrigin (ascii "localhost") 8080 false ++ helloPath, by decide +kernel,
    ⟨helloPath, rfl, rfl⟩, rfl, rfl⟩
  fits := urlFits_hello

/-- Both at once. -/
def helloSession : List (Label Arrival Env Outcome) :=
  [.spawn (.exchange sentHello), .spawn (.exchange askedHello), .act 0 .answered, .act 0 .answered,
    .act 1 .answered, .act 0 .answered, .act 0 .answered, .act 1 .answered, .act 1 .answered,
    .act 1 .answered]

theorem helloSession_answers :
    daemonAnswers .anything defaultRt (Server.start (.empty 0)) helloSession =
      some [(.exchange sentHello, some (.result (.queued ⟨httpOk, ascii "ok"⟩))),
        (.exchange askedHello,
          some (.result (.queued ⟨httpOk, Z85.block (ascii "hello")⟩)))] := by
  decide +kernel

/-- The page arrives as the server gave it. -/
def fetchHello (_url : Bytes) : CurlEnd := .response 200 [Z85.block (ascii "hello")]

theorem fetchHello_relays (url : Bytes) :
    Relays (.queued ⟨httpOk, Z85.block (ascii "hello")⟩) (fetchHello url) :=
  ⟨_, rfl, by decide +kernel⟩

theorem fetchHello_written :
    wsGetMain ⟨Heap.blank, helloGcrypt, runLength⟩ askedArgs fetchHello =
      .ok (0, some (ascii "hello")) := by
  decide +kernel

theorem defaultRt_limitOk : defaultRt.LimitOk := ⟨by decide, by decide⟩

theorem ws_get_authentic_hello :
    ∃ s gp, Authentic helloGcrypt runLength s helloToken (ascii "hello") gp := by
  obtain ⟨h, s, run, hall, hthreads⟩ := run_of_daemonAnswers helloSession_answers
  have honly : OnlyPosted defaultRt helloGcrypt runLength s
      ((cString askedArgs.token).map tolower) := by
    intro j y v p ht hcall
    have hj := congrArg (fun l => l[j]?) hall
    simp only [List.getElem?_map, ht, Option.map_some] at hj
    -- of the two requests only the first puts anything
    match j, hj with
    | 0, hj =>
        obtain ⟨⟨⟩, -⟩ := Prod.mk.inj (Option.some.inj hj)
        exact ⟨Heap.blank, helloArgs, sentHello_posted, rfl⟩
    | 1, hj =>
        obtain ⟨⟨⟩, -⟩ := Prod.mk.inj (Option.some.inj hj)
        obtain ⟨k, ⟨⟩⟩ := hcall.method.1 rfl
    | j + 2, hj => cases hj
  exact ⟨s, ws_get_authentic defaultRt_limitOk helloGcrypt_documented runLength_documented.sound
    run (g := askedArgs) rfl rfl honly (hthreads 1 _ _ rfl) askedHello_asked fetchHello_relays
    fetchHello_written⟩

/-- Once `ws_post` has printed a token, the block of its message has been under
    that token.  Its URL has been short enough for its buffer. -/
theorem ws_post_stored (hrt : rt.LimitOk) {a : Server} {h : List DaemonEvent} {s : DaemonSys}
    (run : (daemonMachine P rt).Run (Machine.init a) h s) {libs : ClientLibs} {g : PostArgs}
    {i : Nat} {x : Exchange} {d : MhdResult}
    (ht : s.threads[i]? = some ⟨.exchange x, .done (.result d)⟩) (hx : x.PostedBy libs g)
    {perform : Bytes → Bytes → CurlEnd} (hnet : ∀ url body, Relays d (perform url body))
    {gcinit z : Int} {token : Bytes}
    (hmain : wsPostMain libs gcinit g perform = .ok (z, some token)) :
    z = 0 ∧ ∃ past pre post later,
      h = past ++
        .op i (.exchange x) (.redisCommand (storeCommand rt ((cString token).map tolower)
          (Z85.block (payload g.comp libs.miniz g.message)))) (some (.status (ascii "OK"))) pre
            post :: later ∧
      post.db.get ((cString token).map tolower) =
        some ⟨Z85.block (payload g.comp libs.miniz g.message),
          deadlineAfter pre.db.now rt.ttl⟩ := by
  obtain ⟨hz, z85block, url, pieces, hblock, haddr, hend⟩ := wsPostMain_printed hmain
  obtain ⟨z85block', token', url', hblock', haddr', hcarries, hfits⟩ := hx.sent
  -- the request is the one that `ws_post` has made
  obtain rfl : z85block = z85block' := Option.some.inj (Except.ok.inj (hblock.symm.trans hblock'))
  obtain ⟨rfl, rfl⟩ : token = token' ∧ url = url' :=
    Prod.mk.inj (Option.some.inj (Except.ok.inj (haddr.symm.trans haddr')))
  obtain ⟨al, ha, hpath⟩ := hcarries.token (createUrl_of_postAddress haddr) hfits
  have hrel := hnet url (cString z85block)
  rw [hend] at hrel
  obtain ⟨page, rfl, -⟩ := hrel
  refine ⟨hz, ?_⟩
  cases daemon_origin hrt run ht with
  | config hcfg => exact absurd hcfg (not_asksConfig hpath)
  | read hcall =>
      obtain ⟨k, v, ⟨⟩⟩ := hcall.method.2 hcarries.method
  | @stored k v past later pre post hcall hbody hh hpage hpost =>
      have hkey : k = (cString token).map tolower := hcall.key_eq hpath ha
      have hval : v = Z85.block (payload g.comp libs.miniz g.message) := by
        rw [hbody, hcarries.body, encodeMsg_block hx.nonempty hblock]
      subst hkey hval
      exact ⟨past, pre, post, later, hh, hpost⟩

/-- So does the answer to the POST. -/
def sendHello (_url _body : Bytes) : CurlEnd := .response 200 [ascii "ok"]

theorem sendHello_relays (url body : Bytes) :
    Relays (.queued ⟨httpOk, ascii "ok"⟩) (sendHello url body) :=
  ⟨_, rfl, by decide +kernel⟩

theorem sendHello_printed :
    wsPostMain plainLibs 0 helloArgs sendHello = .ok (0, some helloToken) := by
  decide +kernel

theorem ws_post_stored_hello :
    ∃ h s, (daemonMachine .anything defaultRt).Run (Machine.init (Server.start (.empty 0))) h s ∧
      ∃ past pre post later,
        h = past ++
          .op 0 (.exchange sentHello) (.redisCommand (storeCommand defaultRt
            ((cString helloToken).map tolower) (Z85.block (payload false runLength
              (ascii "hello"))))) (some (.status (ascii "OK"))) pre post :: later ∧
        post.db.get ((cString helloToken).map tolower) =
          some ⟨Z85.block (payload false runLength (ascii "hello")),
            deadlineAfter pre.db.now defaultRt.ttl⟩ := by
  obtain ⟨h, s, run, -, hthreads⟩ := run_of_daemonAnswers helloSession_answers
  exact ⟨h, s, run, (ws_post_stored defaultRt_limitOk run (hthreads 0 _ _ rfl) sentHello_posted
    sendHello_relays sendHello_printed).2⟩

end Webstore
