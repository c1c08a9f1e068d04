/-
  Webstore.Uhd.Grammar

  Which requests reach Redis, and under which key: exactly those whose URL is
  a store root followed by as many hexadecimal digits as the store asks for,
  with a method and a body that fit.  Every other request is refused or
  answered without a command.  The length of the URL is cut down to an `int`
  before it is compared with the limits, so this fails for some URLs that are
  longer than an `int` can count.
-/
import Mathlib.Data.List.Nodup
import Webstore.Node.Flow
import Webstore.Redis.Commands
import Webstore.Searest.Dispatch
import Webstore.Searest.Upload
import Webstore.Uhd

namespace Webstore

open Webstore.Libc Webstore.Sched

/-! ## The grammar -/

/-- A request that is for the store, and the key it is about. -/
def WellFormed (url method body k : Bytes) : Prop :=
  ∃ n ∈ [128, 160, 224, 256, 384, 512], ∃ h : Bytes,
    url = ascii "/store/" ++ decimal n ++ ascii "/" ++ h ∧ h.length = n / 4 ∧
    (∀ c ∈ h, isxdigit c = true) ∧ k = h.map tolower ∧
    (method = ascii "GET" ∨
      method = ascii "POST" ∧ 5 ≤ body.length ∧ ∀ c ∈ body, c ∈ z85Alphabet)

def knownMethods : List Bytes :=
  [ascii "GET", ascii "POST", ascii "PUT", ascii "DELETE", ascii "OPTIONS"]

def configRoot : Bytes := ascii "/config/"

def storeRoots : List Bytes :=
  [ascii "/store/128/", ascii "/store/160/", ascii "/store/224/", ascii "/store/256/",
    ascii "/store/384/", ascii "/store/512/"]

def configOptions : List Bytes :=
  [ascii "all", ascii "maxuploadsize", ascii "expiration", ascii "immutable", ascii "bar"]

/-- A request that is not refused. -/
structure Served (url method : Bytes) : Prop where
  minUrl : 11 ≤ url.length
  maxUrl : url.length ≤ 139
  method : method ∈ knownMethods

/-- What becomes of a request that is not for the store. -/
inductive Answered (url method : Bytes) : MhdResult → Prop where
  | refused (h : ¬ Served url method) : Answered url method .no
  | noNode {resp : Response} (h : Served url method)
      (hroot : ∀ root ∈ configRoot :: storeRoots, ¬ root <+: url)
      (hcode : resp.code = httpNotFound) : Answered url method (.queued resp)
  | badRequest {resp : Response} (h : Served url method)
      (hmethod : method = ascii "GET" ∨ method = ascii "POST")
      (hroot : ∃ root ∈ storeRoots, root <+: url)
      (hcode : resp.code = httpBadRequest) : Answered url method (.queued resp)
  | notAllowed {resp : Response} (h : Served url method) (hget : method ≠ ascii "GET")
      (hroot : configRoot <+: url ∨ method ≠ ascii "POST" ∧ ∃ root ∈ storeRoots, root <+: url)
      (hcode : resp.code = httpMethodNotAllowed) : Answered url method (.queued resp)
  | noOption {resp : Response} {opt : Bytes} (h : Served url method) (hget : method = ascii "GET")
      (hurl : url = configRoot ++ opt) (hopt : opt ∉ configOptions)
      (hcode : resp.code = httpNotFound) : Answered url method (.queued resp)
  | config {resp : Response} {opt : Bytes} (h : Served url method) (hget : method = ascii "GET")
      (hurl : url = configRoot ++ opt) (hopt : opt ∈ configOptions)
      (hcode : resp.code = httpOk) : Answered url method (.queued resp)

/-- The parser accepts exactly the grammar: `p` is what a request comes to
    while the server is not shutting down. -/
structure ParsesExactly (url method body : Bytes) (p : Prog Rai MhdResult) : Prop where
  issues : ∀ k, Issues k p ↔ WellFormed url method body k
  begins : ∀ k, WellFormed url method body k → ∃ c, firstCommand p = some c ∧ c.key = k
  otherwise : (∀ k, ¬ WellFormed url method body k) →
    ∃ a, quietAnswer p = some a ∧ Answered url method a
  safe : ∀ d, ¬ Faults d p

/-- A request that is served although its URL is too long: the length wraps
    around an `int` into the limits. -/
structure Wraps (url method : Bytes) : Prop where
  long : 139 < url.length
  minUrl : 11 ≤ url.length % 2 ^ 32
  maxUrl : url.length % 2 ^ 32 ≤ 139
  method : method ∈ knownMethods

/-! ## Methods and lengths -/

/-- The table behind `methodType`. -/
def methodTable : List (Bytes × Method) :=
  [(ascii "GET", .get), (ascii "POST", .post), (ascii "PUT", .put), (ascii "DELETE", .del),
    (ascii "OPTIONS", .opt)]

/-- The methods that are known are those of the table. -/
theorem methodType_iff {method : Bytes} (h : NulFree method) (m : Method) :
    methodType method = some m ↔ (method, m) ∈ methodTable := by
  unfold methodType methodTable
  rw [cString_of_nulFree h]
  constructor
  · intro hm
    -- the comparisons of `uhd` in their order
    split at hm
    · simp_all
    split at hm
    · simp_all
    split at hm
    · simp_all
    split at hm
    · simp_all
    split at hm
    · simp_all
    · cases hm
  · intro hmem
    simp only [List.mem_cons, List.not_mem_nil, or_false, Prod.mk.injEq] at hmem
    rcases hmem with ⟨rfl, rfl⟩ | ⟨rfl, rfl⟩ | ⟨rfl, rfl⟩ | ⟨rfl, rfl⟩ | ⟨rfl, rfl⟩ <;> decide

theorem methodTable_get : ∀ e ∈ methodTable, e.2 = .get ↔ e.1 = ascii "GET" := by decide

theorem methodTable_post : ∀ e ∈ methodTable, e.2 = .post ↔ e.1 = ascii "POST" := by decide

theorem methodTable_known : methodTable.map Prod.fst = knownMethods := rfl

theorem known_of_methodType {method : Bytes} (h : NulFree method) {m : Method}
    (hm : methodType method = some m) : method ∈ knownMethods := by
  rw [← methodTable_known]
  exact List.mem_map_of_mem ((methodType_iff h m).mp hm)

theorem methodType_of_known {method : Bytes} (h : NulFree method) (hk : method ∈ knownMethods) :
    ∃ m, methodType method = some m := by
  rw [← methodTable_known] at hk
  obtain ⟨⟨_, m⟩, hmem, rfl⟩ := List.mem_map.mp hk
  exact ⟨m, (methodType_iff h m).mpr hmem⟩

/-- A length as an `int` lies within the limits if and only if its last 32 bits do. -/
theorem toInt_within {n : Nat} :
    (11 ≤ toInt n ∧ toInt n ≤ 139) ↔ (11 ≤ n % 2 ^ 32 ∧ n % 2 ^ 32 ≤ 139) := by
  unfold toInt
  rw [Int.bmod_def]
  omega

/-! ## The table of nodes -/

/-- The root of each store. -/
def HashAlg.root : HashAlg → Bytes
  | .alg128 => ascii "/store/128/"
  | .alg160 => ascii "/store/160/"
  | .alg224 => ascii "/store/224/"
  | .alg256 => ascii "/store/256/"
  | .alg384 => ascii "/store/384/"
  | .alg512 => ascii "/store/512/"

/-- The number in the root of each store. -/
def HashAlg.bits : HashAlg → Nat
  | .alg128 => 128
  | .alg160 => 160
  | .alg224 => 224
  | .alg256 => 256
  | .alg384 => 384
  | .alg512 => 512

theorem HashAlg.root_eq (a : HashAlg) :
    a.root = ascii "/store/" ++ decimal a.bits ++ ascii "/" := by
  cases a <;> decide +kernel

theorem HashAlg.length_root (a : HashAlg) : a.root.length = 11 := by
  cases a <;> decide

theorem HashAlg.hashlen_eq (a : HashAlg) : a.hashlen = a.bits / 4 := by
  cases a <;> rfl

theorem HashAlg.root_mem (a : HashAlg) : a.root ∈ storeRoots := by
  cases a <;> decide

theorem exists_root {root : Bytes} (h : root ∈ storeRoots) : ∃ a : HashAlg, a.root = root := by
  simp only [storeRoots, List.mem_cons, List.not_mem_nil, or_false] at h
  rcases h with rfl | rfl | rfl | rfl | rfl | rfl
  · exact ⟨.alg128, rfl⟩
  · exact ⟨.alg160, rfl⟩
  · exact ⟨.alg224, rfl⟩
  · exact ⟨.alg256, rfl⟩
  · exact ⟨.alg384, rfl⟩
  · exact ⟨.alg512, rfl⟩

/-- The numbers of the grammar are those of the stores. -/
theorem exists_bits {n : Nat} (h : n ∈ [128, 160, 224, 256, 384, 512]) :
    ∃ a : HashAlg, a.bits = n := by
  simp only [List.mem_cons, List.not_mem_nil, or_false] at h
  rcases h with rfl | rfl | rfl | rfl | rfl | rfl
  · exact ⟨.alg128, rfl⟩
  · exact ⟨.alg160, rfl⟩
  · exact ⟨.alg224, rfl⟩
  · exact ⟨.alg256, rfl⟩
  · exact ⟨.alg384, rfl⟩
  · exact ⟨.alg512, rfl⟩

theorem HashAlg.bits_mem (a : HashAlg) : a.bits ∈ [128, 160, 224, 256, 384, 512] := by
  cases a <;> decide

/-- No root begins another. -/
theorem roots_apart : ∀ r ∈ configRoot :: storeRoots, ∀ r' ∈ configRoot :: storeRoots,
    r <+: r' → r = r' := by
  decide +kernel

theorem roots_nodup : (configRoot :: storeRoots).Nodup := by decide +kernel

variable {rt : Wsrt}

theorem roots_webstoreStart :
    (webstoreStart rt).nodelist.map Srn.root = configRoot :: storeRoots := by
  have hroots : [ascii "/config/", ascii "/store/128/", ascii "/store/160/", ascii "/store/224/",
      ascii "/store/256/", ascii "/store/384/", ascii "/store/512/"].map cString =
      configRoot :: storeRoots := by decide +kernel
  rw [← hroots]
  rfl

theorem webstoreStart_rootsNulFree : (webstoreStart rt).RootsNulFree :=
  ((((((searestNew_rootsNulFree _ _ _).add _ _).add _ _).add _ _).add _ _).add _ _).add _ _
    |>.add _ _

/-- Every store has its node. -/
theorem exists_store_node (rt : Wsrt) (a : HashAlg) :
    ∃ n ∈ (webstoreStart rt).nodelist, n.root = a.root ∧ n.cb = nodeCallback a.node rt := by
  have hlist : (webstoreStart rt).nodelist.map (fun n => (n.root, n.cb)) =
      (cString configRoot, nodeCallback nodecfg rt) ::
        [HashAlg.alg128, .alg160, .alg224, .alg256, .alg384, .alg512].map
          (fun a => (cString a.root, nodeCallback a.node rt)) := rfl
  have hall : a ∈ [HashAlg.alg128, .alg160, .alg224, .alg256, .alg384, .alg512] := by
    cases a <;> decide
  have hmem : (cString a.root, nodeCallback a.node rt) ∈
      (webstoreStart rt).nodelist.map fun n => (n.root, n.cb) := by
    rw [hlist]
    exact List.mem_cons_of_mem _ (List.mem_map.mpr ⟨a, hall, rfl⟩)
  have hroot : cString a.root = a.root := by
    cases a <;> decide +kernel
  obtain ⟨n, hn, heq⟩ := List.mem_map.mp hmem
  obtain ⟨h₁, h₂⟩ := Prod.mk.inj heq
  exact ⟨n, hn, h₁.trans hroot, h₂⟩

/-- The node whose root the URL begins with is found. -/
theorem find_webstoreStart (rt : Wsrt) {url : Bytes} (hurl : NulFree url) {n : Srn}
    (hn : n ∈ (webstoreStart rt).nodelist) (hp : n.root <+: url) :
    searestNodeFind (webstoreStart rt) url = some n := by
  have hroot : ∀ n ∈ (webstoreStart rt).nodelist, n.root ∈ configRoot :: storeRoots := fun n hn =>
    roots_webstoreStart ▸ List.mem_map_of_mem hn
  refine searestNodeFind_some webstoreStart_rootsNulFree hurl hn hp fun n' hn' hp' => ?_
  have hsame : n'.root = n.root := by
    rcases List.prefix_or_prefix_of_prefix hp' hp with h | h
    · exact roots_apart _ (hroot n' hn') _ (hroot n hn) h
    · exact (roots_apart _ (hroot n hn) _ (hroot n' hn') h).symm
  have hnodup : ((webstoreStart rt).nodelist.map Srn.root).Nodup :=
    roots_webstoreStart ▸ roots_nodup
  exact List.inj_on_of_nodup_map hnodup hn' hn hsame

/-! ## What a node answers -/

/-- A page as it is sent. -/
def sent (r : Bytes × Srci) : Response :=
  ⟨if r.2.returnCode = 0 then httpOk else r.2.returnCode, cString r.1⟩

theorem sent_code {r : Bytes × Srci} {code : Int} (h : r.2.returnCode = code) (hne : code ≠ 0) :
    (sent r).code = code := by
  simp [sent, h, hne]

/-- A request goes to the node that is found, and its page is sent. -/
theorem uhdAnswer_found {ws : Sri} {ri : Srci} {n : Srn}
    (h : searestNodeFind ws ri.url = some n) (hon : n.disabled = false)
    {node : Bytes → Int → Srci → Wsrt → Prog Rai (Bytes × Srci)}
    (hcb : n.cb = nodeCallback node rt) :
    uhdAnswer ws ri =
      (node (ri.url.drop n.root.length) (toInt ((toSizeT ri.urllen : Int) - n.root.length)) ri rt
        >>= fun r => .done (.queued (sent r))) := by
  unfold uhdAnswer
  rw [processRequest_found h hon, hcb, nodeCallback, Prog.bind_assoc, Prog.bind_assoc]
  congr 1
  funext r
  by_cases hz : r.2.returnCode = 0 <;> simp [queuePage, sent, hz]

theorem uhdAnswer_none {ws : Sri} {ri : Srci} (h : searestNodeFind ws ri.url = none) :
    ∃ resp : Response, uhdAnswer ws ri = .done (.queued resp) ∧ resp.code = httpNotFound := by
  unfold uhdAnswer
  rw [processRequest_none h]
  exact ⟨_, rfl, rfl⟩

/-- A request that is processed is never refused. -/
theorem quietAnswer_uhdAnswer {ri : Srci} {a : MhdResult}
    (h : quietAnswer (uhdAnswer (webstoreStart rt) ri) = some a) : a ≠ .no := by
  cases hf : searestNodeFind (webstoreStart rt) ri.url with
  | none =>
      obtain ⟨resp, heq, -⟩ := uhdAnswer_none hf
      rw [heq] at h
      cases h
      nofun
  | some n =>
      obtain ⟨hon, node, -, hcb⟩ := callback_of_mem (List.mem_of_find?_eq_some hf)
      rw [uhdAnswer_found hf hon hcb, quietAnswer_map] at h
      obtain ⟨r, -, rfl⟩ := Option.map_eq_some_iff.mp h
      nofun

/-- The calls of a store node and their key. -/
theorem firstCommand_flow (rt : Wsrt) {r : NodeReq} {c : Expiry.Call Bytes Bytes}
    (h : r.call = .ok c) :
    ∃ cmd, firstCommand (r.flow rt) = some cmd ∧ cmd.key = c.key := by
  unfold NodeReq.flow enter
  rw [h]
  cases c <;> simp only [callSection] <;> split <;> exact ⟨_, rfl, rfl⟩

/-- A request asks for its own key only. -/
theorem confined_flow {r : NodeReq} {c : Expiry.Call Bytes Bytes} (h : r.call = .ok c) :
    Confined c.key (r.flow rt) := by
  have hsection : Confined c.key (callSection rt c) := by
    cases c with
    | get k =>
        refine ⟨rfl, fun v => ?_⟩
        -- the one other command is the DEL of what was read
        rcases v with - | (str | - | str | n | str)
        · exact confined_leave k _
        · simp only [afterGet]
          split
          · exact ⟨rfl, fun _ => confined_leave k _⟩
          · exact confined_leave k _
        all_goals exact confined_leave k _
    | put k v =>
        refine ⟨rfl, fun reply => ?_⟩
        cases reply <;> exact confined_leave k _
  unfold NodeReq.flow enter
  rw [h]
  simp only
  split <;> exact hsection

/-- A request to a store runs the flow of its node. -/
theorem uhdAnswer_store (rt : Wsrt) {ri : Srci} (hurl : NulFree ri.url) {a : HashAlg} {sfx : Bytes}
    (hroot : ri.url = a.root ++ sfx) (hlen : ri.urllen = ri.url.length)
    (hshort : ri.url.length < 2 ^ 31) {r : NodeReq}
    (hr : r = ⟨a, ri.methodType, sfx, ri.postData⟩)
    (hdata : ri.postDataLen = ri.postData.length) :
    uhdAnswer (webstoreStart rt) ri =
      ((.op (S := Rai) .shuttingDown fun stop => if stop then .done stopping else r.flow rt) >>=
        fun resp => .done (.queued
          ⟨if resp.code = 0 then httpOk else resp.code, cString resp.page⟩)) := by
  obtain ⟨n, hn, hnroot, hcb⟩ := exists_store_node rt a
  have hp : n.root <+: ri.url := by
    rw [hnroot, hroot]
    exact List.prefix_append _ _
  have hfind := find_webstoreStart rt hurl hn hp
  have hcarried : r.Carried ri := by
    subst hr
    exact ⟨rfl, rfl, hdata⟩
  have hdrop : ri.url.drop n.root.length = sfx := by
    rw [hnroot, hroot, List.drop_left']
    rfl
  -- the length that is handed to the node is that of the rest of the URL
  have hsfx : toInt ((toSizeT ri.urllen : Int) - n.root.length) = sfx.length := by
    have hsum : ri.url.length = 11 + sfx.length := by
      rw [hroot, List.length_append, a.length_root]
    rw [hnroot, a.length_root, hlen, toSizeT_of_range (by omega), toInt_of_range] <;> omega
  rw [uhdAnswer_found hfind (callback_of_mem hn).1 hcb, hdrop, hsfx, ← r.node_eq rt hcarried,
    respond, Prog.bind_assoc]
  subst hr
  rfl

/-! ## The grammar and the calls of the stores -/

theorem Served.window {url method : Bytes} (h : Served url method) : url.length < 2 ^ 31 := by
  have := h.maxUrl
  omega

/-- A request to a store is in the grammar when it makes a call. -/
theorem wellFormed_store (a : HashAlg) (sfx body : Bytes) {method : Bytes}
    (hmethod : NulFree method) {m : Method} (hm : methodType method = some m) (k : Bytes) :
    WellFormed (a.root ++ sfx) method body k ↔
      ∃ c, (⟨a, m, sfx, body⟩ : NodeReq).call = .ok c ∧ c.key = k := by
  have hentry := (methodType_iff hmethod m).mp hm
  have hget : m = .get ↔ method = ascii "GET" := methodTable_get _ hentry
  have hpost : m = .post ↔ method = ascii "POST" := methodTable_post _ hentry
  have htoken : ∀ k, (⟨a, m, sfx, body⟩ : NodeReq).token = some k ↔
      sfx.length = a.hashlen ∧ (∀ c ∈ sfx, isxdigit c = true) ∧ k = sfx.map tolower := by
    intro k
    simp only [NodeReq.token, Option.ite_none_right_eq_some, List.all_eq_true, Option.some.injEq,
      and_assoc, eq_comm (b := k)]
  constructor
  · rintro ⟨n, hn, h, heq, hlen, hhex, rfl, hbody⟩
    obtain ⟨b, rfl⟩ := exists_bits hn
    rw [← b.root_eq] at heq
    -- all roots have one length, so the root and the token are read off the URL
    obtain ⟨hroot, rfl⟩ := List.append_inj heq (by rw [a.length_root, b.length_root])
    have hlen' : sfx.length = a.hashlen := by
      have hbits : a.bits = b.bits := by
        cases a <;> cases b <;> first | rfl | (exact absurd hroot (by decide))
      rw [hlen, a.hashlen_eq, hbits]
    have ht := (htoken _).mpr ⟨hlen', hhex, rfl⟩
    rcases hbody with hg | ⟨hp, hfive, hz⟩
    · refine ⟨.get (sfx.map tolower), ?_, rfl⟩
      obtain rfl := hget.mpr hg
      simp [NodeReq.call, ht]
    · refine ⟨.put (sfx.map tolower) body, ?_, rfl⟩
      obtain rfl := hpost.mpr hp
      have hfive' : ¬ body.length < 5 := by omega
      simpa [NodeReq.call, ht, hlen', hfive'] using hz
  · rintro ⟨c, hc, rfl⟩
    have hwf : ∀ k, (⟨a, m, sfx, body⟩ : NodeReq).token = some k →
        (method = ascii "GET" ∨
          method = ascii "POST" ∧ 5 ≤ body.length ∧ ∀ c ∈ body, c ∈ z85Alphabet) →
        WellFormed (a.root ++ sfx) method body k := by
      intro k ht hbody
      obtain ⟨hlen, hhex, hk⟩ := (htoken k).mp ht
      exact ⟨a.bits, a.bits_mem, sfx, by rw [a.root_eq], by rw [hlen, a.hashlen_eq], hhex, hk,
        hbody⟩
    cases c with
    | get k =>
        obtain ⟨hg, ht⟩ := NodeReq.call_eq_get hc
        exact hwf k ht (.inl (hget.mp hg))
    | put k v =>
        obtain ⟨hp, ht, rfl, hfive, hz⟩ := NodeReq.call_eq_put hc
        exact hwf k ht (.inr ⟨hpost.mp hp, hfive, hz⟩)

/-- A request that is in the grammar has the root of a store. -/
theorem WellFormed.root {url method body k : Bytes} (h : WellFormed url method body k) :
    ∃ (a : HashAlg) (sfx : Bytes), url = a.root ++ sfx ∧ sfx.length = a.hashlen ∧
      method ∈ knownMethods := by
  obtain ⟨n, hn, sfx, rfl, hlen, -, -, hbody⟩ := h
  obtain ⟨a, rfl⟩ := exists_bits hn
  refine ⟨a, sfx, by rw [a.root_eq], by rw [hlen, a.hashlen_eq], ?_⟩
  rcases hbody with rfl | ⟨rfl, -⟩ <;> decide

/-- No well-formed URL is cut off by the limits. -/
theorem WellFormed.served {url method body k : Bytes} (h : WellFormed url method body k) :
    Served url method := by
  obtain ⟨a, sfx, rfl, hlen, hmethod⟩ := h.root
  have hbound : a.hashlen ≤ 128 := by cases a <;> decide
  have hsum : (a.root ++ sfx).length = 11 + sfx.length := by
    rw [List.length_append, a.length_root]
  exact ⟨by omega, by omega, hmethod⟩

/-! ## The configuration page -/

theorem exists_config_node (rt : Wsrt) :
    ∃ n ∈ (webstoreStart rt).nodelist, n.root = configRoot ∧ n.cb = nodeCallback nodecfg rt :=
  ⟨⟨1, false, cString configRoot, nodeCallback nodecfg rt⟩, .head _,
    (by decide +kernel : cString configRoot = configRoot), rfl⟩

/-- The configuration page sends no command. -/
theorem quietAnswer_nodecfg (url : Bytes) (urllen : Int) (ri : Srci) (rt : Wsrt) :
    ∃ r, quietAnswer (nodecfg url urllen ri rt) = some r ∧
      r.2.returnCode = if ri.methodType ≠ .get then httpMethodNotAllowed
        else if url ∈ configOptions then httpOk else httpNotFound := by
  unfold nodecfg
  simp only [shuttingDown_bind, quietAnswer, Bool.false_eq_true, if_false]
  by_cases hget : ri.methodType = .get
  · simp only [hget, ne_eq, not_true_eq_false, if_false]
    -- one of the options is found, or none
    by_cases hopt : url ∈ configOptions
    · have hany : (url == ascii "all" || url == ascii "maxuploadsize" ||
          (url == ascii "all" || url == ascii "expiration") ||
          (url == ascii "all" || url == ascii "immutable") ||
          (url == ascii "all" || url == ascii "bar")) = true := by
        simp only [configOptions, List.mem_cons, List.not_mem_nil, or_false] at hopt
        rcases hopt with rfl | rfl | rfl | rfl | rfl <;> decide
      simp only [hany, Bool.not_true, Bool.false_eq_true, if_false, if_pos hopt]
      exact ⟨_, rfl, rfl⟩
    · have hnone : (url == ascii "all" || url == ascii "maxuploadsize" ||
          (url == ascii "all" || url == ascii "expiration") ||
          (url == ascii "all" || url == ascii "immutable") ||
          (url == ascii "all" || url == ascii "bar")) = false := by
        simp only [configOptions, List.mem_cons, List.not_mem_nil, or_false, not_or] at hopt
        simp [hopt]
      simp only [hnone, Bool.not_false, if_true, if_neg hopt]
      exact ⟨_, rfl, rfl⟩
  · simp only [hget, ne_eq, not_false_eq_true, if_true]
    exact ⟨_, rfl, rfl⟩

/-! ## The parser -/

/-- A request that is answered without a command. -/
theorem parsesExactly_of_quiet {url method body : Bytes} {p : Prog Rai MhdResult} {a : MhdResult}
    (h : quietAnswer p = some a) (hno : ∀ k, ¬ WellFormed url method body k)
    (ha : Answered url method a) : ParsesExactly url method body p where
  issues k := ⟨fun hi => absurd hi (not_issues_of_quietAnswer h k), fun hk => absurd hk (hno k)⟩
  begins k hk := absurd hk (hno k)
  otherwise _ := ⟨a, h, ha⟩
  safe := (confined_of_quietAnswer h []).not_faults

/-- A URL under a root of the store is parsed as the grammar says. -/
theorem parsesExactly_store {ri : Srci} {method body : Bytes} {m : Method} (hurl : NulFree ri.url)
    (hmethod : NulFree method) (hm : methodType method = some m) (hs : Served ri.url method)
    (hri : ri.methodType = m ∧ ri.urllen = ri.url.length ∧ ri.postData = body ∧
      ri.postDataLen = body.length) {a : HashAlg} {sfx : Bytes} (hroot : ri.url = a.root ++ sfx) :
    ParsesExactly ri.url method body (uhdAnswer (webstoreStart rt) ri) := by
  obtain ⟨hri₁, hri₂, hri₃, hri₄⟩ := hri
  have hform := uhdAnswer_store rt hurl hroot hri₂ hs.window
    (r := ⟨a, m, sfx, body⟩) (by rw [hri₁, hri₃]) (by rw [hri₃, hri₄])
  have hwf := wellFormed_store a sfx body hmethod hm
  rw [← hroot] at hwf
  cases hc : (⟨a, m, sfx, body⟩ : NodeReq).call with
  | ok c =>
      -- well-formed: the key of the call is the only one
      have hkey : ∀ k, WellFormed ri.url method body k ↔ c.key = k := by
        intro k
        rw [hwf, hc]
        simp
      obtain ⟨cmd, hcmd, hcmdkey⟩ := firstCommand_flow rt hc
      have hfirst : firstCommand (uhdAnswer (webstoreStart rt) ri) = some cmd := by
        rw [hform, firstCommand_map]
        exact hcmd
      have hconf : Confined c.key (uhdAnswer (webstoreStart rt) ri) := by
        rw [hform]
        exact confined_map (confined_flow hc) _
      refine ⟨fun k => ⟨fun hi => (hkey k).mpr (hconf.issues hi).symm, fun hk => ?_⟩,
        fun k hk => ⟨cmd, hfirst, hcmdkey.trans ((hkey k).mp hk)⟩,
        fun hno => absurd ((hkey c.key).mpr rfl) (hno c.key), hconf.not_faults⟩
      rw [← (hkey k).mp hk, ← hcmdkey]
      exact issues_of_firstCommand hfirst
  | error resp =>
      -- not well-formed: it is answered before any command
      have hquiet : quietAnswer (uhdAnswer (webstoreStart rt) ri) =
          some (.queued ⟨if resp.code = 0 then httpOk else resp.code, cString resp.page⟩) := by
        rw [hform, quietAnswer_map]
        simp [quietAnswer, NodeReq.flow, hc]
      have hentry := (methodType_iff hmethod m).mp hm
      have hstore : ∃ root ∈ storeRoots, root <+: ri.url :=
        ⟨a.root, a.root_mem, hroot ▸ List.prefix_append _ _⟩
      refine parsesExactly_of_quiet hquiet (fun k hk => ?_) ?_
      · obtain ⟨c, hc', -⟩ := (hwf k).mp hk
        rw [hc] at hc'
        cases hc'
      · rcases NodeReq.call_error hc with ⟨hcode, hmt⟩ | ⟨hcode, hng, hnp⟩
        · refine .badRequest hs (hmt.imp (methodTable_get _ hentry).mp
            (methodTable_post _ hentry).mp) hstore ?_
          simp [hcode, httpBadRequest]
        · refine .notAllowed hs (fun h => hng ((methodTable_get _ hentry).mpr h))
            (.inr ⟨fun h => hnp ((methodTable_post _ hentry).mpr h), hstore⟩) ?_
          simp [hcode, httpMethodNotAllowed]

/-- And so is one under the root of the configuration. -/
theorem parsesExactly_config {ri : Srci} {method body : Bytes} {m : Method}
    (hurl : NulFree ri.url) (hmethod : NulFree method) (hm : methodType method = some m)
    (hs : Served ri.url method) (hri : ri.methodType = m) {opt : Bytes}
    (hroot : ri.url = configRoot ++ opt) :
    ParsesExactly ri.url method body (uhdAnswer (webstoreStart rt) ri) := by
  obtain ⟨n, hn, hnroot, hcb⟩ := exists_config_node rt
  have hp : n.root <+: ri.url := by
    rw [hnroot, hroot]
    exact List.prefix_append _ _
  have hdrop : ri.url.drop n.root.length = opt := by
    rw [hnroot, hroot, List.drop_left']
    rfl
  have hfind := find_webstoreStart rt hurl hn hp
  obtain ⟨r, hr, hcode⟩ := quietAnswer_nodecfg opt
    (toInt ((toSizeT ri.urllen : Int) - n.root.length)) ri rt
  have hquiet : quietAnswer (uhdAnswer (webstoreStart rt) ri) = some (.queued (sent r)) := by
    rw [uhdAnswer_found hfind (callback_of_mem hn).1 hcb, hdrop, quietAnswer_map, hr]
    rfl
  have hentry := (methodType_iff hmethod m).mp hm
  have hget : m = .get ↔ method = ascii "GET" := methodTable_get _ hentry
  rw [hri] at hcode
  refine parsesExactly_of_quiet hquiet (fun k hk => ?_) ?_
  · obtain ⟨a, sfx, heq, -⟩ := hk.root
    have hcfg : configRoot <+: ri.url := hroot ▸ List.prefix_append _ _
    have hstore : a.root <+: ri.url := heq ▸ List.prefix_append _ _
    have hmem : a.root ∈ configRoot :: storeRoots := List.mem_cons_of_mem _ a.root_mem
    -- no store has a root that begins like that of the configuration
    have hne : configRoot ≠ a.root := by cases a <;> decide
    rcases List.prefix_or_prefix_of_prefix hcfg hstore with h | h
    · exact hne (roots_apart _ List.mem_cons_self _ hmem h)
    · exact hne (roots_apart _ hmem _ List.mem_cons_self h).symm
  · by_cases hm' : m = .get
    · rw [if_neg (not_not_intro hm')] at hcode
      by_cases hopt : opt ∈ configOptions
      · rw [if_pos hopt] at hcode
        exact .config hs (hget.mp hm') hroot hopt (sent_code hcode (by decide))
      · rw [if_neg hopt] at hcode
        exact .noOption hs (hget.mp hm') hroot hopt (sent_code hcode (by decide))
    · rw [if_pos hm'] at hcode
      exact .notAllowed hs (fun h => hm' (hget.mpr h)) (.inl (hroot ▸ List.prefix_append _ _))
        (sent_code hcode (by decide))

/-- A request that is served is parsed exactly. -/
theorem parsesExactly_served (rt : Wsrt) {ri : Srci} {method body : Bytes} {m : Method}
    (hurl : NulFree ri.url) (hmethod : NulFree method) (hm : methodType method = some m)
    (hs : Served ri.url method)
    (hri : ri.methodType = m ∧ ri.urllen = ri.url.length ∧ ri.postData = body ∧
      ri.postDataLen = body.length) :
    ParsesExactly ri.url method body (uhdAnswer (webstoreStart rt) ri) := by
  by_cases hroot : ∃ root ∈ configRoot :: storeRoots, root <+: ri.url
  · obtain ⟨root, hmem, sfx, hsfx⟩ := hroot
    rcases List.mem_cons.mp hmem with rfl | hmem
    · exact parsesExactly_config hurl hmethod hm hs hri.1 hsfx.symm
    · obtain ⟨a, rfl⟩ := exists_root hmem
      exact parsesExactly_store hurl hmethod hm hs hri hsfx.symm
  -- no node has a root the URL begins with
  · have hnone : ∀ root ∈ configRoot :: storeRoots, ¬ root <+: ri.url :=
      fun root hmem hp => hroot ⟨root, hmem, hp⟩
    have hfind : searestNodeFind (webstoreStart rt) ri.url = none :=
      searestNodeFind_none webstoreStart_rootsNulFree hurl fun n hn =>
        hnone _ (roots_webstoreStart ▸ List.mem_map_of_mem hn)
    obtain ⟨resp, hans, hcode⟩ := uhdAnswer_none hfind
    refine parsesExactly_of_quiet (by rw [hans]; rfl) (fun k hk => ?_) (.noNode hs hnone hcode)
    obtain ⟨a, sfx, heq, -⟩ := hk.root
    exact hnone a.root (List.mem_cons_of_mem _ a.root_mem) (heq ▸ List.prefix_append _ _)

/-- A request that is served although its URL is too long is not refused. -/
theorem not_parsesExactly_of_wraps {url method body : Bytes} {ri : Srci}
    (h : Wraps url method) : ¬ ParsesExactly url method body (uhdAnswer (webstoreStart rt) ri) := by
  intro hp
  have hns : ¬ Served url method := fun hs => absurd hs.maxUrl (Nat.not_le_of_lt h.long)
  obtain ⟨a, hquiet, ha⟩ := hp.otherwise fun k hk => hns hk.served
  cases ha with
  | refused => exact quietAnswer_uhdAnswer hquiet rfl
  | noNode hs => exact hns hs
  | badRequest hs => exact hns hs
  | notAllowed hs => exact hns hs
  | noOption hs => exact hns hs
  | config hs => exact hns hs

/-- Which requests pass the first call. -/
theorem exists_admitted_iff (rt : Wsrt) {url method : Bytes} (hurl : NulFree url)
    (hmethod : NulFree method) {hdr : Headers}
    (hmax : hdr.announced ≤ (webstoreStart rt).maxContentLength) :
    (∃ m, hdr.Admitted (webstoreStart rt) url method m) ↔
      Served url method ∨ Wraps url method := by
  constructor
  · rintro ⟨m, hmin, hmaxu, hm, -⟩
    rw [cString_of_nulFree hurl] at hmin hmaxu
    obtain ⟨h₁, h₂⟩ := toInt_within.mp ⟨hmin, hmaxu⟩
    have hk := known_of_methodType hmethod hm
    -- within the limits as an `int`: short enough, or 2^32 and more
    by_cases hlong : 139 < url.length
    · exact .inr ⟨hlong, h₁, h₂, hk⟩
    · exact .inl ⟨by omega, by omega, hk⟩
  · intro h
    have hk : method ∈ knownMethods := h.elim Served.method Wraps.method
    obtain ⟨m, hm⟩ := methodType_of_known hmethod hk
    have hwithin : 11 ≤ url.length % 2 ^ 32 ∧ url.length % 2 ^ 32 ≤ 139 := by
      rcases h with h | h
      · obtain ⟨h₁, h₂, -⟩ := h
        omega
      · exact ⟨h.minUrl, h.maxUrl⟩
    obtain ⟨h₁, h₂⟩ := toInt_within.mpr hwithin
    refine ⟨m, ?_, ?_, hm, hmax⟩
    · rw [cString_of_nulFree hurl]
      exact h₁
    · rw [cString_of_nulFree hurl]
      exact h₂

/-- What a request comes to, by its URL and method. -/
theorem uhdRequest_cases (rt : Wsrt) {url method body : Bytes} (hurl : NulFree url)
    (hmethod : NulFree method) {hdr : Headers} (hp : hdr.Present) (hu : hdr.url = some url)
    (hm : hdr.method = some method)
    (hlen : hdr.announced = body.length)
    (hmax : body.length ≤ (webstoreStart rt).maxContentLength) {chunks : List Bytes}
    (hcs : ∀ c ∈ chunks, c ≠ []) (hbody : chunks.flatten = body) :
    (¬ Served url method ∧ ¬ Wraps url method ∧
      uhdRequest (webstoreStart rt) hdr chunks = .done .no) ∨
    ((Served url method ∨ Wraps url method) ∧ ∃ m, methodType method = some m ∧
      uhdRequest (webstoreStart rt) hdr chunks =
        uhdAnswer (webstoreStart rt) ((hdr.opened url m).received chunks)) := by
  have hiff := exists_admitted_iff rt hurl hmethod (hlen.trans_le hmax)
  rcases uhdReceive_headers (webstoreStart rt) hdr with
    ⟨-, url', method', m, hu', hm', hadm, h⟩ | ⟨cls, h, hno, -⟩
  · rw [hu] at hu'
    rw [hm] at hm'
    cases hu'
    cases hm'
    -- the headers are admitted, and the body is as long as they say
    exact .inr ⟨hiff.mp ⟨m, hadm⟩, m, hadm.method,
      uhdRequest_complete hp h hcs (by rw [hbody, hlen])⟩
  · -- they are not, whatever the method
    have hnone : ¬ (Served url method ∨ Wraps url method) := fun hsw => by
      obtain ⟨m, hadm⟩ := hiff.mpr hsw
      exact hno url method m hp hu hm hadm
    exact .inl ⟨fun hs => hnone (.inl hs), fun hw => hnone (.inr hw), (calls_refused h chunks).2.2⟩

/-- A request that is served is parsed exactly, in whatever pieces it comes. -/
theorem parsesExactly_uhdRequest (rt : Wsrt) {url method body : Bytes} (hurl : NulFree url)
    (hmethod : NulFree method) {hdr : Headers} (hp : hdr.Present) (hu : hdr.url = some url)
    (hm : hdr.method = some method) (hlen : hdr.announced = body.length)
    (hmax : body.length ≤ (webstoreStart rt).maxContentLength) {chunks : List Bytes}
    (hcs : ∀ c ∈ chunks, c ≠ []) (hbody : chunks.flatten = body) (hs : Served url method) :
    ParsesExactly url method body (uhdRequest (webstoreStart rt) hdr chunks) := by
  rcases uhdRequest_cases rt hurl hmethod hp hu hm hlen hmax hcs hbody with
    ⟨hns, -⟩ | ⟨-, m, hmt, hreq⟩
  · exact absurd hs hns
  · have hstr : ((hdr.opened url m).received chunks).url = url := cString_of_nulFree hurl
    -- a URL that is served is short enough for an `int`
    have hint : toInt url.length = url.length := by
      have := hs.window
      exact toInt_of_range (by omega) (by omega)
    have hul : ((hdr.opened url m).received chunks).urllen = url.length := by
      rw [Srci.urllen_received, Headers.urllen_opened, cString_of_nulFree hurl, hint]
    have hurl' : NulFree ((hdr.opened url m).received chunks).url := by rwa [hstr]
    have hs' : Served ((hdr.opened url m).received chunks).url method := by rwa [hstr]
    have hparse := parsesExactly_served rt hurl' hmethod hmt hs'
      ⟨rfl, by rw [hul, hstr], hbody, congrArg List.length hbody⟩
    rw [hreq]
    rwa [hstr] at hparse

/-- The parser accepts exactly its grammar, unless the length of the URL wraps. -/
theorem parser_exact {url method body : Bytes} (hurl : NulFree url) (hmethod : NulFree method)
    {hdr : Headers} (hp : hdr.Present) (hu : hdr.url = some url) (hm : hdr.method = some method)
    (hlen : hdr.announced = body.length)
    (hmax : body.length ≤ (webstoreStart rt).maxContentLength) {chunks : List Bytes}
    (hcs : ∀ c ∈ chunks, c ≠ []) (hbody : chunks.flatten = body) :
    ParsesExactly url method body (uhdRequest (webstoreStart rt) hdr chunks) ↔
      ¬ Wraps url method := by
  rcases uhdRequest_cases rt hurl hmethod hp hu hm hlen hmax hcs hbody with
    ⟨hns, hnw, hreq⟩ | ⟨hsw, m, -, hreq⟩
  -- neither served nor let through by the wrap: refused by the first call
  · rw [hreq]
    exact iff_of_true (parsesExactly_of_quiet rfl (fun k hk => hns hk.served) (.refused hns)) hnw
  · constructor
    · intro hparse hw
      rw [hreq] at hparse
      exact not_parsesExactly_of_wraps hw hparse
    · intro hnw
      exact parsesExactly_uhdRequest rt hurl hmethod hp hu hm hlen hmax hcs hbody
        (hsw.resolve_right hnw)

/-- The server with its default upload limit. -/
def defaultRt : Wsrt := ⟨true, 0, 0, 20 * 1024 * 1024, 0, false, false⟩

def storeUrl : Bytes := ascii "/store/128/" ++ upperToken

def postHeaders : Headers :=
  ⟨some storeUrl, some (ascii "POST"), some (ascii "HTTP/1.1"), some (ascii "10")⟩

/-- A POST in two pieces is parsed exactly. -/
theorem parser_exact_post :
    WellFormed storeUrl (ascii "POST") (ascii "HelloWorld") lowerToken ∧
      ParsesExactly storeUrl (ascii "POST") (ascii "HelloWorld")
        (uhdRequest (webstoreStart defaultRt) postHeaders [ascii "Hello", ascii "World"]) := by
  have hwf : WellFormed storeUrl (ascii "POST") (ascii "HelloWorld") lowerToken := by
    refine ⟨128, by decide, upperToken, by decide +kernel, by decide, ?_, by decide +kernel, ?_⟩
    · decide +kernel
    · exact .inr ⟨rfl, by decide, by decide +kernel⟩
  have hnul : NulFree storeUrl ∧ NulFree (ascii "POST") := by
    unfold NulFree
    decide +kernel
  refine ⟨hwf, (parser_exact hnul.1 hnul.2 (by unfold Headers.Present; decide) rfl rfl
    (by decide +kernel) (by decide +kernel) (by decide) (by decide)).mpr fun hw => ?_⟩
  exact absurd hw.long (by decide)

/-- A URL of 2^32 + 43 characters. -/
def wrappingUrl : Bytes := storeUrl ++ List.replicate (2 ^ 32) 97

theorem wrappingUrl_wraps : Wraps wrappingUrl (ascii "GET") := by
  have hlen : wrappingUrl.length = 43 + 2 ^ 32 := by
    rw [wrappingUrl, List.length_append, List.length_replicate]
    rfl
  exact ⟨by omega, by omega, by omega, by decide⟩

theorem wrappingUrl_nulFree : NulFree wrappingUrl := by
  intro c hc
  rcases List.mem_append.mp hc with hc | hc
  · have hall : ∀ c ∈ storeUrl, c ≠ 0 := by decide +kernel
    exact hall c hc
  · rw [List.eq_of_mem_replicate hc]
    decide

def wrappingHeaders : Headers :=
  ⟨some wrappingUrl, some (ascii "GET"), some (ascii "HTTP/1.1"), none⟩

/-- A GET of that URL is served. -/
theorem parser_accepts_wrapping :
    ¬ ParsesExactly wrappingUrl (ascii "GET") []
      (uhdRequest (webstoreStart defaultRt) wrappingHeaders []) := by
  have hmethod : NulFree (ascii "GET") := by
    unfold NulFree
    decide +kernel
  have hpresent : wrappingHeaders.Present := ⟨rfl, rfl, rfl⟩
  have hlen : wrappingHeaders.announced = ([] : Bytes).length := rfl
  rcases uhdRequest_cases defaultRt wrappingUrl_nulFree hmethod hpresent rfl rfl hlen
    (Nat.zero_le _) (by simp) List.flatten_nil with ⟨-, hnw, -⟩ | ⟨-, m, -, hreq⟩
  · exact absurd wrappingUrl_wraps hnw
  · rw [hreq]
    exact not_parsesExactly_of_wraps wrappingUrl_wraps

end Webstore
