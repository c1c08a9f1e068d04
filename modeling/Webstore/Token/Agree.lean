/-
  Webstore.Token.Agree

  The clients and the server agree on addresses.  Four tables meet here: the
  digest lengths of the algorithms, the lengths `valid_token` accepts, the node
  `create_url` picks by the length, and the roots and hash lengths of the
  server.
-/
import Webstore.Libc.Memory
import Webstore.Token
import Webstore.Uhd.Grammar

namespace Webstore

open Webstore.Libc Webstore.Sched

/-! ## The digest library -/

/-- The length of a digest. -/
def GcAlg.dlen : GcAlg → Nat
  | .md5 => 16
  | .sha1 => 20
  | .sha224 => 28
  | .sha256 => 32
  | .sha384 => 48
  | .sha512 => 64

/-- The library has the algorithms, and its digests are as long as theirs. -/
structure Gcrypt.Documented (lib : Gcrypt) : Prop where
  mdOpen : ∀ alg, lib.mdOpen alg = 0
  mdGetAlgoDlen : ∀ alg, lib.mdGetAlgoDlen alg = alg.dlen
  mdRead : ∀ alg msg, (lib.mdRead alg msg).length = alg.dlen

/-! ## Addresses -/

/-- The URL is not cut off by its buffer. -/
def UrlFits (host : Bytes) (port : UInt16) (token : Bytes) (secure : Bool) : Prop :=
  ∀ node, urlNode token = some node →
    (urlOrigin host port secure ++ urlStore node token).length < urlSize

/-- A request of the clients as it comes in: a GET without a body, or a POST of
    a block in whatever pieces. -/
structure ClientRequest (rt : Wsrt) (method path : Bytes) (hdr : Headers) (chunks : List Bytes) :
    Prop where
  body : method = ascii "GET" ∧ chunks = [] ∨
    method = ascii "POST" ∧ 5 ≤ chunks.flatten.length ∧ ∀ c ∈ chunks.flatten, c ∈ z85Alphabet
  present : hdr.Present
  url : hdr.url = some path
  method : hdr.method = some method
  announced : hdr.announced = chunks.flatten.length
  limit : chunks.flatten.length ≤ (webstoreStart rt).maxContentLength
  pieces : ∀ c ∈ chunks, c ≠ []

/-- The first command is on `k`, and so is every other. -/
structure KeyIs (k : Bytes) (p : Prog Rai MhdResult) : Prop where
  first : ∃ c, firstCommand p = some c ∧ c.key = k
  only : ∀ k', Issues k' p → k' = k

/-- A path within the limits of the server that goes to the node for the length
    of the token. -/
structure Routed (rt : Wsrt) (path token : Bytes) : Prop where
  minUrl : (webstoreStart rt).minUrlLen ≤ path.length
  maxUrl : path.length ≤ (webstoreStart rt).maxUrlLen
  node : ∃ n type, searestNodeFind (webstoreStart rt) path = some n ∧ n.disabled = false ∧
    n.cb = nodeCallback (storeNode type (cString token).length) rt

/-- Every request of the clients on a path is for one key. -/
def Keyed (rt : Wsrt) (path k : Bytes) : Prop :=
  ∀ method hdr chunks, ClientRequest rt method path hdr chunks →
    KeyIs k (uhdRequest (webstoreStart rt) hdr chunks)

/-- The clients and the server agree on addresses. -/
structure AddressesAgree (lib : Gcrypt) (rt : Wsrt) : Prop where
  /-- The token of a message spells its digest, and addresses itself. -/
  created : ∀ (alg : Int) (msg : Bytes) (msglen : Nat), 1 ≤ alg → alg ≤ 6 → msglen ≤ msg.length →
    ∃ gcalg token, gcalgOf alg = some gcalg ∧ createToken lib alg msg msglen = .ok (some token) ∧
      token = hex (lib.mdRead gcalg (msg.take msglen)) ∧
      unhex token = some (lib.mdRead gcalg (msg.take msglen)) ∧
      ∀ host port secure, UrlFits host port token secure →
        ∃ path, postAddress lib none host port alg msg msglen secure =
            .ok (some (token, urlOrigin host port secure ++ path)) ∧
          createUrl host port token secure = some (urlOrigin host port secure ++ path) ∧
          Routed rt path token ∧ Keyed rt path token
  /-- A token is accepted if and only if it has a URL, which is routed. -/
  accepted : ∀ token host port secure,
    (validToken token ≠ 0 ↔ (createUrl host port token secure).isSome) ∧
    (validToken token ≠ 0 → UrlFits host port token secure →
      ∃ path, createUrl host port token secure = some (urlOrigin host port secure ++ path) ∧
        Routed rt path token)
  /-- `ws_post -t` and `ws_get -t` meet if and only if the tokens are equal up to case. -/
  met : ∀ t₁ t₂ : Bytes, (∀ c ∈ t₁, isxdigit c = true) → (∀ c ∈ t₂, isxdigit c = true) →
    validToken t₁ ≠ 0 → validToken t₂ ≠ 0 →
    ∀ host₁ port₁ secure₁ host₂ port₂ secure₂ msg len,
      UrlFits host₁ port₁ t₁ secure₁ → UrlFits host₂ port₂ t₂ secure₂ →
      tokenArgs (some t₁) 0 = true ∧
      ∃ path₁ path₂,
        postAddress lib (some t₁) host₁ port₁ 0 msg len secure₁ =
          .ok (some (t₁, urlOrigin host₁ port₁ secure₁ ++ path₁)) ∧
        createUrl host₂ port₂ t₂ secure₂ = some (urlOrigin host₂ port₂ secure₂ ++ path₂) ∧
        ∃ k₁ k₂, Keyed rt path₁ k₁ ∧ Keyed rt path₂ k₂ ∧
          (k₁ = k₂ ↔ t₁.map tolower = t₂.map tolower)

/-! ## The token of a message -/

/-- The loop of `gen_hash` spells the bytes that are left behind those it has
    spelled. -/
theorem genHashFrom_eq (digest : Bytes) (n i : Nat) (h : i + n = digest.length) :
    genHashFrom digest (hex (digest.take i) ++ List.replicate (n * 2 + 1) 0) i n =
      .ok (hex digest ++ [0]) := by
  induction n generalizing i with
  | zero =>
      have hi : digest.length ≤ i := by omega
      rw [List.take_of_length_le hi]
      rfl
  | succ n ih =>
      have hi : i < digest.length := by omega
      have hlen : (hex (digest.take i)).length = i * 2 := by
        rw [length_hex, List.length_take]
        omega
      have hroom : List.replicate ((n + 1) * 2 + 1) (0 : UInt8) =
          List.replicate 3 0 ++ List.replicate (n * 2) 0 := by
        rw [List.replicate_append_replicate]
        congr 1
        omega
      -- the terminator of this `sprintf` is the first of the zeros left
      have hcopy := memcpy_append (hex (digest.take i)) (List.replicate 3 0)
        (List.replicate (n * 2) 0) (hexByte digest[i] ++ [0]) rfl
      have hnext : hex (digest.take i) ++ (hexByte digest[i] ++ [0]) ++ List.replicate (n * 2) 0 =
          hex (digest.take (i + 1)) ++ List.replicate (n * 2 + 1) 0 := by
        rw [← List.take_append_getElem hi, hex_append, List.replicate_succ]
        simp
      rw [hroom, ← List.append_assoc, genHashFrom, load_eq hi, ok_bind, ← hlen, hcopy, ok_bind,
        hnext]
      exact ih (i + 1) (by omega)

theorem genHash_eq (digest : Bytes) : genHash digest digest.length = .ok (hex digest) := by
  have hloop := genHashFrom_eq digest digest.length 0 (Nat.zero_add _)
  simp only [List.take_zero, hex_nil, List.nil_append] at hloop
  unfold genHash
  simp only [hloop, ok_bind]
  rw [pure_ok, cString_append_nul (nulFree_hex digest)]

theorem createToken_eq {lib : Gcrypt} (hlib : lib.Documented) {alg : Int} {gcalg : GcAlg}
    (halg : gcalgOf alg = some gcalg) {msg : Bytes} {msglen : Nat} (hlen : msglen ≤ msg.length) :
    createToken lib alg msg msglen = .ok (some (hex (lib.mdRead gcalg (msg.take msglen)))) := by
  have hopen : ¬ lib.mdOpen gcalg ≠ 0 := not_not_intro (hlib.mdOpen gcalg)
  have hdsize : lib.mdGetAlgoDlen gcalg = (lib.mdRead gcalg (msg.take msglen)).length := by
    rw [hlib.mdGetAlgoDlen, hlib.mdRead]
  unfold createToken
  simp only [halg, if_neg hopen, readBytes_eq hlen, hdsize, genHash_eq, ok_bind]
  rfl

/-- The algorithms and the stores pair up by length. -/
theorem exists_gcalg {alg : Int} (h₁ : 1 ≤ alg) (h₂ : alg ≤ 6) :
    ∃ (gcalg : GcAlg) (a : HashAlg), gcalgOf alg = some gcalg ∧ 2 * gcalg.dlen = a.hashlen := by
  obtain rfl | rfl | rfl | rfl | rfl | rfl :
      alg = 1 ∨ alg = 2 ∨ alg = 3 ∨ alg = 4 ∨ alg = 5 ∨ alg = 6 := by omega
  · exact ⟨.md5, .alg128, rfl, rfl⟩
  · exact ⟨.sha1, .alg160, rfl, rfl⟩
  · exact ⟨.sha224, .alg224, rfl, rfl⟩
  · exact ⟨.sha256, .alg256, rfl, rfl⟩
  · exact ⟨.sha384, .alg384, rfl, rfl⟩
  · exact ⟨.sha512, .alg512, rfl, rfl⟩

/-! ## The URL of a token -/

theorem urlNode_eq {token : Bytes} {a : HashAlg} (h : (cString token).length = a.hashlen) :
    urlNode token = some (decimal a.bits) := by
  unfold urlNode
  rw [h]
  cases a <;> decide +kernel

theorem validToken_eq {token : Bytes} {a : HashAlg} (h : (cString token).length = a.hashlen) :
    validToken token = 1 := by
  unfold validToken
  rw [h]
  cases a <;> decide

/-- Both tables are the lengths of the stores. -/
theorem hashlen_of_urlNode {token : Bytes} (h : (urlNode token).isSome ∨ validToken token ≠ 0) :
    ∃ a : HashAlg, (cString token).length = a.hashlen := by
  by_contra hno
  have hne : ∀ a : HashAlg, ((cString token).length : Int) ≠ a.hashlen := fun a ha =>
    hno ⟨a, by exact_mod_cast ha⟩
  have h₁ : ((cString token).length : Int) ≠ hashlen128 := hne .alg128
  have h₂ : ((cString token).length : Int) ≠ hashlen160 := hne .alg160
  have h₃ : ((cString token).length : Int) ≠ hashlen224 := hne .alg224
  have h₄ : ((cString token).length : Int) ≠ hashlen256 := hne .alg256
  have h₅ : ((cString token).length : Int) ≠ hashlen384 := hne .alg384
  have h₆ : ((cString token).length : Int) ≠ hashlen512 := hne .alg512
  unfold urlNode validToken at h
  simp only [if_neg h₁, if_neg h₂, if_neg h₃, if_neg h₄, if_neg h₅, if_neg h₆] at h
  exact h.elim (by decide) (by decide)

theorem urlStore_eq (a : HashAlg) (token : Bytes) :
    urlStore (decimal a.bits) token = a.root ++ cString token := by
  rw [urlStore, a.root_eq]

theorem createUrl_eq {host token : Bytes} {port : UInt16} {secure : Bool} {a : HashAlg}
    (h : (cString token).length = a.hashlen) (hfits : UrlFits host port token secure) :
    createUrl host port token secure =
      some (urlOrigin host port secure ++ (a.root ++ cString token)) := by
  have hshort := hfits _ (urlNode_eq h)
  unfold createUrl
  simp only [urlNode_eq h]
  rw [snprintf, List.take_of_length_le (by omega), urlStore_eq]

theorem isSome_createUrl (host : Bytes) (port : UInt16) (token : Bytes) (secure : Bool) :
    (createUrl host port token secure).isSome = (urlNode token).isSome := by
  unfold createUrl
  cases urlNode token <;> rfl

theorem validToken_iff (host : Bytes) (port : UInt16) (token : Bytes) (secure : Bool) :
    validToken token ≠ 0 ↔ (createUrl host port token secure).isSome := by
  rw [isSome_createUrl]
  constructor
  · intro h
    obtain ⟨a, ha⟩ := hashlen_of_urlNode (.inr h)
    rw [urlNode_eq ha]
    rfl
  · intro h
    obtain ⟨a, ha⟩ := hashlen_of_urlNode (.inl h)
    rw [validToken_eq ha]
    decide

/-! ## The path on the server -/

theorem nulFree_path (a : HashAlg) (token : Bytes) : NulFree (a.root ++ cString token) := by
  intro c hc
  rcases List.mem_append.mp hc with hc | hc
  · have hroot : ∀ c ∈ a.root, c ≠ 0 := by cases a <;> decide +kernel
    exact hroot c hc
  · exact nulFree_cString token c hc

theorem length_path {a : HashAlg} {token : Bytes} (h : (cString token).length = a.hashlen) :
    11 ≤ (a.root ++ cString token).length ∧ (a.root ++ cString token).length ≤ 139 := by
  have hbound : a.hashlen ≤ 128 := by cases a <;> decide
  rw [List.length_append, a.length_root, h]
  omega

theorem routed (rt : Wsrt) {a : HashAlg} {token : Bytes} (h : (cString token).length = a.hashlen) :
    Routed rt (a.root ++ cString token) token := by
  obtain ⟨hmin, hmax⟩ := length_path h
  obtain ⟨n, hn, hroot, hcb⟩ := exists_store_node rt a
  obtain ⟨type, htype⟩ := a.node_eq
  have hfind := find_webstoreStart rt (nulFree_path a token) hn (hroot ▸ List.prefix_append _ _)
  refine ⟨?_, ?_, n, type, hfind, (callback_of_mem hn).1, ?_⟩
  · show (8 + 3 : Int) ≤ _
    omega
  · show _ ≤ (128 + 11 : Int)
    omega
  · rw [hcb, htype, h]

/-- A hex token of the right length is the key, in lower case. -/
theorem keyed (rt : Wsrt) {a : HashAlg} {token : Bytes} (hlen : token.length = a.hashlen)
    (hhex : ∀ c ∈ token, isxdigit c = true) : Keyed rt (a.root ++ token) (token.map tolower) := by
  intro method hdr chunks hreq
  have hstr : cString token = token := cString_of_nulFree fun c hc => isxdigit_ne_zero (hhex c hc)
  have hnul : NulFree (a.root ++ token) := hstr ▸ nulFree_path a token
  have hmethod : NulFree method := by
    unfold NulFree
    rcases hreq.body with ⟨rfl, -⟩ | ⟨rfl, -⟩ <;> decide +kernel
  have hbody : method = ascii "GET" ∨
      method = ascii "POST" ∧ 5 ≤ chunks.flatten.length ∧
        ∀ c ∈ chunks.flatten, c ∈ z85Alphabet := hreq.body.imp And.left id
  have hwf : WellFormed (a.root ++ token) method chunks.flatten (token.map tolower) :=
    ⟨a.bits, a.bits_mem, token, by rw [a.root_eq], by rw [hlen, a.hashlen_eq], hhex, rfl, hbody⟩
  have hparse := parsesExactly_uhdRequest rt hnul hmethod hreq.present hreq.url hreq.method
    hreq.announced hreq.limit hreq.pieces rfl hwf.served
  refine ⟨hparse.begins _ hwf, fun k' hk' => ?_⟩
  -- any other key the grammar gives is the one of the first command
  obtain ⟨c, hc, hck⟩ := hparse.begins _ hwf
  obtain ⟨c', hc', hck'⟩ := hparse.begins _ ((hparse.issues k').mp hk')
  rw [hc] at hc'
  cases hc'
  exact hck'.symm.trans hck

/-! ## Agreement -/

/-- Without `-t` a message is posted under its own token. -/
theorem postAddress_message {lib : Gcrypt} {host : Bytes} {port : UInt16} {alg : Int} {msg : Bytes}
    {len : Nat} {secure : Bool} {token url : Bytes}
    (htoken : createToken lib alg msg len = .ok (some token))
    (hurl : createUrl host port token secure = some url) :
    postAddress lib none host port alg msg len secure = .ok (some (token, url)) := by
  unfold postAddress
  simp only [htoken, ok_bind, hurl]
  rfl

/-- With `-t` it is posted under that token. -/
theorem postAddress_token (lib : Gcrypt) {host : Bytes} {port : UInt16} (alg : Int) (msg : Bytes)
    (len : Nat) {secure : Bool} {token url : Bytes} (hstr : cString token = token)
    (hurl : createUrl host port token secure = some url) :
    postAddress lib (some token) host port alg msg len secure = .ok (some (token, url)) := by
  unfold postAddress
  simp only [hstr, pure_ok, ok_bind, hurl]

/-- The clients and the server agree on addresses. -/
theorem addresses_agree {lib : Gcrypt} (hlib : lib.Documented) (rt : Wsrt) :
    AddressesAgree lib rt where
  created alg msg msglen h₁ h₂ hlen := by
    -- the token is the digest in hexadecimal, of the length of its store
    obtain ⟨gcalg, a, halg, hpair⟩ := exists_gcalg h₁ h₂
    have htoken := createToken_eq hlib halg hlen
    refine ⟨gcalg, _, halg, htoken, rfl, unhex_hex _, fun host port secure hfits => ?_⟩
    have hhex : ∀ c ∈ hex (lib.mdRead gcalg (msg.take msglen)), isxdigit c = true :=
      fun c hc => (hex_spec hc).1
    have hstr := cString_of_nulFree (nulFree_hex (lib.mdRead gcalg (msg.take msglen)))
    have hl : (hex (lib.mdRead gcalg (msg.take msglen))).length = a.hashlen := by
      rw [length_hex, hlib.mdRead, hpair]
    have hls := hl
    rw [← hstr] at hls
    have hurl := createUrl_eq hls hfits
    have hroute := routed rt hls
    have hkey := keyed rt hl hhex
    rw [hstr] at hurl hroute
    rw [map_tolower_hex] at hkey
    exact ⟨_, postAddress_message htoken hurl, hurl, hroute, hkey⟩
  accepted token host port secure := by
    refine ⟨validToken_iff host port token secure, fun hvalid hfits => ?_⟩
    obtain ⟨a, ha⟩ := hashlen_of_urlNode (.inr hvalid)
    exact ⟨_, createUrl_eq ha hfits, routed rt ha⟩
  met t₁ t₂ hhex₁ hhex₂ hvalid₁ hvalid₂ host₁ port₁ secure₁ host₂ port₂ secure₂ msg len
      hfits₁ hfits₂ := by
    have hargs : tokenArgs (some t₁) 0 = true := by simp [tokenArgs, hvalid₁]
    -- two clients with one token, whatever its case, meet at one key
    obtain ⟨a₁, ha₁⟩ := hashlen_of_urlNode (.inr hvalid₁)
    obtain ⟨a₂, ha₂⟩ := hashlen_of_urlNode (.inr hvalid₂)
    have hstr₁ : cString t₁ = t₁ := cString_of_nulFree fun c hc => isxdigit_ne_zero (hhex₁ c hc)
    have hstr₂ : cString t₂ = t₂ := cString_of_nulFree fun c hc => isxdigit_ne_zero (hhex₂ c hc)
    have hurl₁ := createUrl_eq ha₁ hfits₁
    have hurl₂ := createUrl_eq ha₂ hfits₂
    rw [hstr₁] at ha₁ hurl₁
    rw [hstr₂] at ha₂ hurl₂
    exact ⟨hargs, _, _, postAddress_token lib 0 msg len hstr₁ hurl₁, hurl₂, _, _,
      keyed rt ha₁ hhex₁, keyed rt ha₂ hhex₂, Iff.rfl⟩

/-- The digests of `hello`, as they are written. -/
def helloDigest : GcAlg → String
  | .md5 => "5d41402abc4b2a76b9719d911017c592"
  | .sha1 => "aaf4c61ddcc5e8a2dabede0f3b482cd9aea9434d"
  | .sha224 => "ea09ae9cc6768c50fcee903ed054556e5bfc8347907f12598aa24193"
  | .sha256 => "2cf24dba5fb0a30e26e83b2ac5b9e29e1b161e5c1fa7425e73043362938b9824"
  | .sha384 => "59e1748777448c69de6b800d7a33bbfb9ff1b463e44354c3553bcdb9c666fa90" ++
      "125a3c79f90397bdf5f6a13de828684f"
  | .sha512 => "9b71d224bd62f3785d96d46ad3ea3d73319bfbc2890caadae2dff72519673ca7" ++
      "2323c3d99ba5c11d7c7acc6e14b8c5da0c4663475c2e5c3adef46f73bcdec043"

/-- A library that can digest `hello`; of anything else it makes a blank. -/
def helloGcrypt : Gcrypt where
  mdOpen _ := 0
  mdGetAlgoDlen := GcAlg.dlen
  mdRead alg msg :=
    if msg = ascii "hello" then (unhex (ascii (helloDigest alg))).getD []
    else List.replicate alg.dlen 0

theorem helloGcrypt_documented : helloGcrypt.Documented where
  mdOpen _ := rfl
  mdGetAlgoDlen _ := rfl
  mdRead alg msg := by
    rw [helloGcrypt]
    dsimp only
    split
    · cases alg <;> decide +kernel
    · exact List.length_replicate

/-- The clients of such a library and the default server agree. -/
theorem addresses_agree_hello : AddressesAgree helloGcrypt defaultRt :=
  addresses_agree helloGcrypt_documented defaultRt

end Webstore
