/-
  Webstore.Node.Flow

  What a store node does, request by request: the checks decide between a
  refusal that never reaches Redis and a call on the store, and the call runs
  between taking and giving back the mutex.  The later modules argue about
  this form; `serve_eq` is what ties it to the nodes.
-/
import Webstore.Expiry.Store
import Webstore.Node
import Webstore.Redis.Commands

namespace Webstore

open Webstore.Libc Webstore.Sched

/-! ## The checks -/

/-- The digits of the Z85 encoding. -/
def z85Alphabet : Bytes :=
  ascii "0123456789abcdefghijklmnopqrstuvwxyzABCDEFGHIJKLMNOPQRSTUVWXYZ" ++
    ascii ".-:+=^!/*?&<>()[]\x7b\x7d@%$#"

/-- Whether a text is made of digits is decided one character after the other. -/
instance decidableZ85 (l : Bytes) : Decidable (∀ c ∈ l, c ∈ z85Alphabet) :=
  List.decidableBAll (· ∈ z85Alphabet) l

/-- A store node accepts the digits of the encoding and nothing else. -/
theorem isZ85Digit_iff (c : UInt8) : isZ85Digit c = true ↔ c ∈ z85Alphabet :=
  forall_byte (p := fun c => isZ85Digit c = true ↔ c ∈ z85Alphabet) (by decide +kernel) c

theorem z85Alphabet_nulFree : NulFree z85Alphabet := by
  unfold NulFree
  decide +kernel

/-- The loop of `Z85_validate` looks at every character, inside the message. -/
theorem z85ValidateFrom_eq {ptr : Bytes} (n i : Nat) (h : i + n ≤ ptr.length) :
    z85ValidateFrom ptr i n =
      .ok (if ∀ c ∈ (ptr.drop i).take n, c ∈ z85Alphabet then 0 else 1) := by
  induction n generalizing i with
  | zero => simp [z85ValidateFrom]
  | succ n ih =>
      have hi : i < ptr.length := by omega
      rw [List.drop_eq_getElem_cons hi, List.take_succ_cons]
      simp only [z85ValidateFrom, load_eq hi, List.forall_mem_cons, ok_bind]
      by_cases hc : isZ85Digit ptr[i] = true
      · simp [hc, ← isZ85Digit_iff, ih (i + 1) (by omega)]
      · simp [hc, ← isZ85Digit_iff]

theorem z85Validate_eq (body : Bytes) :
    z85Validate body body.length = .ok (if ∀ c ∈ body, c ∈ z85Alphabet then 0 else 1) := by
  have h := z85ValidateFrom_eq body.length 0 (Nat.le_of_eq (Nat.zero_add body.length))
  simpa [z85Validate] using h

/-- The loop of `convert_hash` turns digits into lower case, or stops at what is no
    digit. -/
theorem convertHashFrom_eq {input : Bytes} (n i : Nat) (newhash : Bytes)
    (hin : i + n ≤ input.length) (hnew : i + n ≤ newhash.length) :
    convertHashFrom input newhash i n =
      .ok (if ((input.drop i).take n).all isxdigit then
        some (newhash.take i ++ ((input.drop i).take n).map tolower ++ newhash.drop (i + n))
      else none) := by
  induction n generalizing i newhash with
  | zero => simp [convertHashFrom]
  | succ n ih =>
      have hi : i < input.length := by omega
      have hj : i < newhash.length := by omega
      rw [List.drop_eq_getElem_cons hi, List.take_succ_cons]
      simp only [convertHashFrom, load_eq hi, store_eq hj, ok_bind, List.all_cons]
      by_cases hc : isxdigit input[i] = true
      · rw [ih (i + 1) _ (by omega) (by simp; omega)]
        -- the converted part grows by one character, and the rest is as before
        have hset : (newhash.set i (tolower input[i])).take (i + 1) =
            newhash.take i ++ [tolower input[i]] := by
          rw [List.take_add_one, List.take_set_of_le (Nat.le_refl i), List.getElem?_set_self hj]
          rfl
        have hrest : (newhash.set i (tolower input[i])).drop (i + 1 + n) =
            newhash.drop (i + (n + 1)) := by
          rw [List.drop_set_of_lt (by omega)]
          congr 1
          omega
        simp [hc, hset, hrest]
      · simp [hc]

theorem tolower_ne_zero {c : UInt8} (h : isxdigit c = true) : tolower c ≠ 0 :=
  isxdigit_ne_zero (by rw [isxdigit_tolower]; exact h)

theorem nulFree_map_tolower {s : Bytes} (h : s.all isxdigit = true) :
    NulFree (s.map tolower) := by
  intro c hc
  obtain ⟨d, hd, rfl⟩ := List.mem_map.mp hc
  exact tolower_ne_zero (List.all_eq_true.mp h d hd)

/-- `convert_hash` on the first `n` characters of its input. -/
theorem convertHash_eq {input : Bytes} {n : Nat} (hn : n < newhashSize) (hlen : n ≤ input.length) :
    convertHash input n =
      .ok (if (input.take n).all isxdigit then some ((input.take n).map tolower) else none) := by
  have hsize : ¬ newhashSize - 1 < toSizeT n := by
    rw [toSizeT_of_range (by unfold newhashSize at hn; omega)]
    omega
  unfold convertHash
  rw [if_neg hsize]
  simp only [Int.toNat_natCast]
  rw [convertHashFrom_eq n 0 _ (by simp; omega) (by simp; omega)]
  simp only [List.drop_zero, List.take_zero, List.nil_append, Nat.zero_add, pure_ok, ok_bind]
  rw [List.take_append_of_le_length hlen]
  by_cases hx : (input.take n).all isxdigit = true
  · have hnul := nulFree_map_tolower hx
    -- `newhash` was cleared, so that a NUL follows the converted characters
    have htail : (List.replicate newhashSize (0 : UInt8)).drop n =
        0 :: List.replicate (newhashSize - n - 1) 0 := by
      rw [List.drop_replicate, ← List.replicate_succ]
      congr 1
      omega
    have hlen' : ((input.take n).map tolower).length = n := by simp [hlen]
    rw [if_pos hx, if_pos hx, htail]
    simp only
    rw [store_eq (by simp [hlen]), ok_bind, List.set_append_right _ _ hlen'.le, hlen', Nat.sub_self,
      List.set_cons_zero, cString_append_nul hnul]
  · simp [hx]

/-! ## Requests and calls -/

/-- The number of characters of a token. -/
def HashAlg.hashlen : HashAlg → Nat
  | .alg128 => 32
  | .alg160 => 40
  | .alg224 => 56
  | .alg256 => 64
  | .alg384 => 96
  | .alg512 => 128

theorem HashAlg.hashlen_lt (a : HashAlg) : a.hashlen < newhashSize := by
  cases a <;> decide

/-- The key a well-formed token stands for: the token in lower case. -/
def NodeReq.token (r : NodeReq) : Option Bytes :=
  if r.url.length = r.alg.hashlen ∧ r.url.all isxdigit then some (r.url.map tolower) else none

/-- A token in either spelling. -/
def upperToken : Bytes := ascii "00112233445566778899AABBCCDDEEFF"

def lowerToken : Bytes := ascii "00112233445566778899aabbccddeeff"

example : (⟨.alg128, .get, upperToken, []⟩ : NodeReq).token = some lowerToken := by
  decide +kernel

def badRequest (page : String) : Response := ⟨httpBadRequest, ascii page⟩

/-- The call a request makes on the store, or the refusal it gets. -/
def NodeReq.call (r : NodeReq) : Except Response (Expiry.Call Bytes Bytes) :=
  match r.method with
  | .get =>
      match r.token with
      | some k => .ok (.get k)
      | none => .error (badRequest "malformed request")
  | .post =>
      if r.url.length ≠ r.alg.hashlen then .error (badRequest "malformed request - invalid url")
      else if r.body.length < 5 then .error (badRequest "malformed request - invalid length")
      else if ¬ ∀ c ∈ r.body, c ∈ z85Alphabet then
        .error (badRequest "malformed request - invalid Z85")
      else
        match r.token with
        | some k => .ok (.put k r.body)
        | none => .error (badRequest "malformed request - invalid token")
  | _ => .error ⟨httpMethodNotAllowed, ascii "method not allowed"⟩

/-- A token is a string of digits. -/
theorem NodeReq.token_nulFree {r : NodeReq} {k : Bytes} (h : r.token = some k) : NulFree k := by
  unfold NodeReq.token at h
  split at h
  · rename_i hx
    cases h
    exact nulFree_map_tolower hx.2
  · cases h

theorem NodeReq.call_eq_get {r : NodeReq} {k : Bytes} (h : r.call = .ok (.get k)) :
    r.method = .get ∧ r.token = some k := by
  unfold NodeReq.call at h
  grind

theorem NodeReq.call_eq_put {r : NodeReq} {k v : Bytes} (h : r.call = .ok (.put k v)) :
    r.method = .post ∧ r.token = some k ∧ v = r.body ∧ 5 ≤ v.length ∧
      ∀ c ∈ v, c ∈ z85Alphabet := by
  unfold NodeReq.call at h
  grind

/-- A refusal says which check failed. -/
theorem NodeReq.call_error {r : NodeReq} {resp : Response} (h : r.call = .error resp) :
    (resp.code = httpBadRequest ∧ (r.method = .get ∨ r.method = .post)) ∨
      (resp.code = httpMethodNotAllowed ∧ r.method ≠ .get ∧ r.method ≠ .post) := by
  unfold NodeReq.call badRequest at h
  grind

/-! ## The section of a call -/

def stopping : Response :=
  ⟨httpServiceUnavailable, ascii "service unavailable: shutting down"⟩

def unavailable : Response := ⟨httpServiceUnavailable, ascii "service unavailable"⟩

def notFound : Response := ⟨httpNotFound, ascii "not found"⟩

/-- The answer to a POST whose `SET` ended in `z`. -/
def postResponse (z : Int) : Response :=
  if z = 0 then ⟨httpOk, ascii "ok"⟩
  else
    ⟨z, if z = 304 then ascii "object immutable - not modified"
      else if z = 417 then ascii "redis reply error"
      else if z = 503 then ascii "service unavailable"
      else ascii "internal server error"⟩

theorem code_postResponse (z : Int) :
    (postResponse z).code = if z = 0 then httpOk else z := by
  unfold postResponse
  split <;> rfl

/-- Only a stored body is answered 200. -/
theorem code_postResponse_postError (reply : Reply) :
    (postResponse (postError reply)).code = httpOk ↔ postError reply = 0 := by
  rw [code_postResponse]
  rcases reply with str | - | str | n | str
  · simp [postError, httpOk]
  · simp [postError, httpOk]
  · by_cases hok : str.take 2 = ascii "OK" <;> simp [postError, hok, httpOk]
  · simp [postError, httpOk]
  · simp [postError, httpOk]

/-- A POST succeeds at the status OK only. -/
theorem postError_eq_zero {reply : Reply} (h : postError reply = 0) :
    ∃ str, reply = .status str ∧ str.take 2 = ascii "OK" := by
  rcases reply with str | - | str | n | str
  · cases h
  · cases h
  · simp only [postError] at h
    split at h
    · rename_i hok
      exact ⟨str, rfl, hok⟩
    · cases h
  · cases h
  · cases h

/-- Take the mutex if there are threads. -/
def enter {α : Type} (rt : Wsrt) (p : Prog Rai α) : Prog Rai α :=
  if rt.multithreaded then .lock p else p

/-- Give the mutex back if there are threads, and answer. -/
def leave {α : Type} (rt : Wsrt) (a : α) : Prog Rai α :=
  if rt.multithreaded then .unlock (.done a) else .done a

theorem ite_raiLock {α : Type} (rt : Wsrt) (p : Prog Rai α) :
    (if rt.multithreaded = true then (raiLock >>= fun _ => p) else p) = enter rt p := rfl

theorem ite_unlock {α : Type} (rt : Wsrt) (a : α) :
    (if rt.multithreaded = true then .unlock (.done a) else .done a) = leave rt a := rfl

theorem confined_leave {α : Type} {rt : Wsrt} (k : Bytes) (a : α) : Confined k (leave rt a) := by
  unfold leave
  split <;> trivial

theorem enter_bind {α β : Type} (rt : Wsrt) (p : Prog Rai α) (f : α → Prog Rai β) :
    (enter rt p >>= f) = enter rt (p >>= f) := by
  unfold enter
  split <;> rfl

theorem leave_bind {α β : Type} (rt : Wsrt) {a : α} {f : α → Prog Rai β} {b : β}
    (h : f a = .done b) : (leave rt a >>= f) = leave rt b := by
  unfold leave
  split
  · exact congrArg Prog.unlock h
  · exact h

/-- What is left of a thread that leaves. -/
theorem leave_cases {α : Type} {rt : Wsrt} {a : α} {p : Prog Rai α} (h : p = leave rt a) :
    (rt.multithreaded = true ∧ p = .unlock (.done a)) ∨
      (rt.multithreaded = false ∧ p = .done a) := by
  unfold leave at h
  split at h
  · exact .inl ⟨by assumption, h⟩
  · exact .inr ⟨by simpa using ‹¬ rt.multithreaded = true›, h⟩

/-- The rest of a GET once its reply is there. -/
def afterGet (rt : Wsrt) (k : Bytes) : Option Reply → Prog Rai Response
  | none => .op (S := Rai) .handleRedisError fun _ => leave rt unavailable
  | some (.string str) =>
      if rt.bar then
        .op (S := Rai) (.redisCommand (.del k)) fun _ => leave rt ⟨httpOk, cString str⟩
      else leave rt ⟨httpOk, cString str⟩
  | some _ => leave rt notFound

/-- The rest of a POST once its reply is there. -/
def afterSet (rt : Wsrt) : Option Reply → Prog Rai Response
  | none => .op (S := Rai) .handleRedisError fun _ => leave rt (postResponse 503)
  | some reply => leave rt (postResponse (postError reply))

/-- The `SET` of a POST. -/
def storeCommand (rt : Wsrt) (k v : Bytes) : Cmd :=
  .set k v (if rt.expiration = 0 then none else some rt.expiration) rt.immutable

/-- The section of a call, locked when requests are served concurrently. -/
def callSection (rt : Wsrt) : Expiry.Call Bytes Bytes → Prog Rai Response
  | .get k => .op (S := Rai) (.redisCommand (.get k)) (afterGet rt k)
  | .put k v => .op (S := Rai) (.redisCommand (storeCommand rt k v)) (afterSet rt)

/-- A section begins with a command. -/
theorem callSection_eq_op (rt : Wsrt) (c : Expiry.Call Bytes Bytes) :
    ∃ cmd k, callSection rt c = .op (S := Rai) (.redisCommand cmd) k := by
  cases c <;> exact ⟨_, _, rfl⟩

theorem setCommand_eq (rt : Wsrt) {k v : Bytes} (hk : NulFree k) (hv : NulFree v) :
    setCommand rt k (v ++ [0]) = storeCommand rt k v := by
  unfold setCommand storeCommand
  rw [cString_of_nulFree hk, cString_append_nul hv]
  by_cases he : rt.expiration = 0 <;> cases rt.immutable <;> simp [he]

/-- Each store node is its hash length away from the others. -/
theorem HashAlg.node_eq (a : HashAlg) : ∃ type, a.node = storeNode type a.hashlen := by
  cases a <;> exact ⟨_, rfl⟩

/-- What is left of a request once the server is known to be running. -/
def NodeReq.flow (rt : Wsrt) (r : NodeReq) : Prog Rai Response :=
  match r.call with
  | .error resp => .done resp
  | .ok c => enter rt (callSection rt c)

/-! ## The nodes have this form -/

theorem NodeReq.convertHash_url {r : NodeReq} (hlen : r.url.length = r.alg.hashlen) :
    convertHash r.url r.url.length = .ok r.token := by
  have h := convertHash_eq (hlen ▸ r.alg.hashlen_lt) (Nat.le_refl r.url.length)
  rw [List.take_length] at h
  simpa [NodeReq.token, hlen] using h

theorem NodeReq.token_eq_none {r : NodeReq} (hlen : r.url.length ≠ r.alg.hashlen) :
    r.token = none := by
  simp [NodeReq.token, hlen]

/-- The record carries the request. -/
structure NodeReq.Carried (r : NodeReq) (ri : Srci) : Prop where
  method : ri.methodType = r.method
  data : ri.postData = r.body
  length : ri.postDataLen = r.body.length

/-- Answer with a node's page and the code it set. -/
def respond (p : Prog Rai (Bytes × Srci)) : Prog Rai Response := do
  let (page, ri) ← p
  return ⟨ri.returnCode, page⟩

/-- `get` does what the flow of a GET says. -/
theorem NodeReq.get_eq (rt : Wsrt) (r : NodeReq) (type : Nat) (ri : Srci)
    (hr : r.method = .get) :
    respond (get ⟨type, r.alg.hashlen, r.url, r.url.length⟩ rt ri) = r.flow rt := by
  unfold respond get NodeReq.flow NodeReq.call
  rw [hr]
  by_cases hlen : r.url.length = r.alg.hashlen
  · have hint : (r.url.length : Int) = r.alg.hashlen := by omega
    simp only [NodeReq.convertHash_url hlen]
    simp only [hint, ne_eq, not_true_eq_false, if_false, orDie_ok, Prog.done_bind]
    cases ht : r.token with
    | none => rfl
    | some k =>
        simp only [doRedisDel, cString_of_nulFree (NodeReq.token_nulFree ht), callSection]
        simp only [ite_raiLock, enter_bind, redisCommand_bind, Prog.op_bind]
        congr 2
        funext v
        -- only a string goes on, and only with `-b` to a DEL
        rcases v with - | (str | - | str | n | str)
        · exact congrArg (Prog.op (S := Rai) .handleRedisError) (funext fun _ => leave_bind rt rfl)
        · cases hb : rt.bar with
          | true =>
              simp only [afterGet, hb, if_true]
              exact congrArg (Prog.op (S := Rai) (.redisCommand (.del k)))
                (funext fun _ => leave_bind rt rfl)
          | false =>
              simp only [afterGet, hb, Bool.false_eq_true, if_false]
              exact leave_bind rt rfl
        all_goals exact leave_bind rt rfl
  · have hint : ¬ (r.url.length : Int) = r.alg.hashlen := by omega
    simp only [hint, NodeReq.token_eq_none hlen, not_false_eq_true, ne_eq, if_true]
    rfl

/-- `do_redis_post` on the body of a request. -/
theorem doRedisPost_eq (rt : Wsrt) {k v : Bytes} (hk : NulFree k) (hv : NulFree v) :
    doRedisPost rt k v v.length =
      enter rt (.op (S := Rai) (.redisCommand (storeCommand rt k v)) fun
        | none => .op (S := Rai) .handleRedisError fun _ => leave rt 503
        | some reply => leave rt (postError reply)) := by
  unfold doRedisPost
  simp only [readBytes_eq (Nat.le_refl v.length), List.take_length, setCommand_eq rt hk hv,
    orDie_ok, Prog.done_bind]
  simp only [ite_raiLock, redisCommand_bind]
  congr 2
  funext reply
  cases reply <;> simp [ite_unlock]

/-- `post` does what the flow of a POST says. -/
theorem NodeReq.post_eq (rt : Wsrt) (r : NodeReq) (type : Nat) {ri : Srci} (hri : r.Carried ri)
    (hr : r.method = .post) :
    respond (post ⟨type, r.alg.hashlen, r.url, r.url.length⟩ rt ri) = r.flow rt := by
  unfold respond post NodeReq.flow NodeReq.call
  simp only [hr, hri.length, hri.data]
  by_cases hlen : r.url.length = r.alg.hashlen
  · have hint : (r.url.length : Int) = r.alg.hashlen := by omega
    simp only [NodeReq.convertHash_url hlen]
    simp only [hlen, ne_eq, not_true_eq_false, if_false, z85Validate_eq, orDie_ok, Prog.done_bind]
    -- the checks in the order of `post`: the length, the alphabet, the token
    by_cases hshort : r.body.length < 5
    · simp only [hshort, if_true]
      rfl
    · by_cases hz : ∀ c ∈ r.body, c ∈ z85Alphabet
      · have hv : NulFree r.body := fun c hc => z85Alphabet_nulFree c (hz c hc)
        simp only [hshort, eq_true hz, if_false, if_true, not_true_eq_false]
        cases ht : r.token with
        | none => rfl
        | some k =>
            simp only [doRedisPost_eq rt (NodeReq.token_nulFree ht) hv]
            simp only [Prog.bind_assoc, enter_bind, Prog.op_bind, callSection]
            congr 2
            funext reply
            cases reply with
            | none =>
                exact congrArg (Prog.op (S := Rai) .handleRedisError)
                  (funext fun _ => leave_bind rt rfl)
            | some reply =>
                refine leave_bind rt ?_
                by_cases hp : postError reply = 0 <;> simp [postResponse, hp]
      · simp only [hshort, eq_false hz, if_false, if_true, not_false_eq_true]
        rfl
  · have hint : ¬ (r.url.length : Int) = r.alg.hashlen := by omega
    simp only [hint, hlen, not_false_eq_true, ne_eq, if_true]
    rfl

/-- A store node reads `g_shutdown` once, and then runs its flow. -/
theorem NodeReq.node_eq (rt : Wsrt) (r : NodeReq) {ri : Srci} (hri : r.Carried ri) :
    respond (r.alg.node r.url r.url.length ri rt) =
      .op (S := Rai) .shuttingDown fun stop => if stop then .done stopping else r.flow rt := by
  obtain ⟨type, htype⟩ := r.alg.node_eq
  unfold respond
  rw [htype]
  simp only [storeNode, hri.method, shuttingDown_bind, Prog.op_bind]
  congr 1
  funext stop
  cases stop with
  | true => rfl
  | false =>
      simp only [Bool.false_eq_true, if_false]
      cases hr : r.method with
      | get => exact r.get_eq rt type ri hr
      | post => exact r.post_eq rt type hri hr
      -- `uhd` passes the other methods on; the node answers them with an error
      | _ =>
          simp only [NodeReq.flow, NodeReq.call, hr]
          rfl

theorem NodeReq.serve_eq (rt : Wsrt) (r : NodeReq) :
    r.serve rt = .op (S := Rai) .shuttingDown fun stop =>
      if stop then .done stopping else r.flow rt :=
  r.node_eq rt ⟨rfl, rfl, rfl⟩

end Webstore
