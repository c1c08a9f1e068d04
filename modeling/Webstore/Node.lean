/-
  Webstore.Node

  The nodes of the server: the six stores and the configuration page.  They
  run as thread programs over the shared Redis context; all else they do is
  on their own stack.  Log lines are left out: nothing reads them back.
-/
import Webstore.Redis
import Webstore.Srci

namespace Webstore

open Webstore.Libc Webstore.Sched

/-- `wsrt_t` without the Redis context.  `webstore_start` never leaves
    `expiration` negative. -/
structure Wsrt where
  multithreaded : Bool
  reqperiod : Int
  reqcount : Int
  maxPostDataSize : Int
  expiration : Nat
  immutable : Bool
  bar : Bool

/-- `wsreq_t`. -/
structure WsReq where
  type : Nat
  hashlen : Int
  url : Bytes
  urllen : Int

def hashlen128 : Int := 128 / 8 * 2
def hashlen160 : Int := 160 / 8 * 2
def hashlen224 : Int := 224 / 8 * 2
def hashlen256 : Int := 256 / 8 * 2
def hashlen384 : Int := 384 / 8 * 2
def hashlen512 : Int := 512 / 8 * 2

/-! ## Checks -/

/-- The alphabet of the server, its own copy. -/
def base85 : Bytes :=
  ascii "0123456789" ++
  ascii "abcdefghij" ++
  ascii "klmnopqrst" ++
  ascii "uvwxyzABCD" ++
  ascii "EFGHIJKLMN" ++
  ascii "OPQRSTUVWX" ++
  ascii "YZ.-:+=^!/" ++
  ascii "*?&<>()[]\x7b" ++
  ascii "\x7d@%$#"

/-- `is_Z85_digit`. -/
def isZ85Digit (digit : UInt8) : Bool :=
  isalnum digit || ((base85.take 85).drop 62).any fun c => digit == c

/-- The loop of `Z85_validate` from `ptr[i]` on, with `n` bytes to go. -/
def z85ValidateFrom (ptr : Bytes) (i : Nat) : Nat → Except Fault Int
  | 0 => .ok 0
  | n + 1 => do
      let c ← load ptr i
      if !isZ85Digit c then return 1
      z85ValidateFrom ptr (i + 1) n

/-- `Z85_validate`: 1 if some character is no Z85 digit. -/
def z85Validate (ptr : Bytes) (len : Nat) : Except Fault Int := z85ValidateFrom ptr 0 len

/-- `sizeof(newhash)`. -/
def newhashSize : Nat := 256

/-- The loop of `convert_hash` from `input[i]` on, with `n` digits to go. -/
def convertHashFrom (input newhash : Bytes) (i : Nat) : Nat → Except Fault (Option Bytes)
  | 0 => .ok (some newhash)
  | n + 1 => do
      let c ← load input i
      if !isxdigit c then return none
      let newhash ← store newhash i (tolower c)
      convertHashFrom input newhash (i + 1) n

/-- `convert_hash`: the token in lower case, or NULL.  `len` is compared as a
    `size_t`; the input is read up to its terminator. -/
def convertHash (input : Bytes) (len : Int) : Except Fault (Option Bytes) := do
  -- a negative length is a huge one here
  if newhashSize - 1 < toSizeT len then throw (.exit 1)
  match ← convertHashFrom (input ++ [0]) (List.replicate newhashSize 0) 0 len.toNat with
  | none => return none
  | some newhash =>
      let newhash ← store newhash len.toNat 0
      return some (cString newhash)

/-! ## The store nodes -/

/-- `do_redis_del`: the reply is freed unread. -/
def doRedisDel (hash : Bytes) : Prog Rai Unit := do
  let _ ← redisCommand (.del (cString hash))

/-- `get`. -/
def get (req : WsReq) (rt : Wsrt) (ri : Srci) : Prog Rai (Bytes × Srci) := do
  if req.urllen ≠ req.hashlen then
    return (ascii "malformed request", ri.setReturnCode httpBadRequest)
  match ← orDie (convertHash req.url req.urllen) with
  | none => return (ascii "malformed request", ri.setReturnCode httpBadRequest)
  | some hash =>
      -- the DEL of a GET that burns is sent before the lock is given back
      if rt.multithreaded then raiLock
      let (err, page) ← do
        match ← redisCommand (.get (cString hash)) with
        | none => do
            handleRedisError
            pure ((503 : Int), (none : Option Bytes))
        | some reply => do
            let page :=
              match reply with
              | .string str => some (cString str)
              | _ => none
            if page.isSome && rt.bar then doRedisDel hash
            pure (0, page)
      if rt.multithreaded then raiUnlock
      if err = 503 then
        return (ascii "service unavailable", ri.setReturnCode httpServiceUnavailable)
      match page with
      | none => return (ascii "not found", ri.setReturnCode httpNotFound)
      | some page => return (page, ri.setReturnCode httpOk)

/-- The four forms of the `SET` command. -/
def setCommand (rt : Wsrt) (hash datastr : Bytes) : Cmd :=
  if rt.expiration ≠ 0 && rt.immutable then
    .set (cString hash) (cString datastr) (some rt.expiration) true
  else if rt.expiration ≠ 0 then
    .set (cString hash) (cString datastr) (some rt.expiration) false
  else if rt.immutable then
    .set (cString hash) (cString datastr) none true
  else
    .set (cString hash) (cString datastr) none false

/-- How `do_redis_post` reads the reply to `SET`. -/
def postError : Reply → Int
  | .error _ => 417
  | .nil => 304
  | .status str => if str.take 2 = ascii "OK" then 0 else 500
  | _ => 500

/-- `do_redis_post`. -/
def doRedisPost (rt : Wsrt) (hash dataptr : Bytes) (datalen : Nat) : Prog Rai Int := do
  let data ← orDie (readBytes dataptr datalen)
  -- `calloc` has put the terminator behind the bytes
  let datastr := data ++ [0]
  if rt.multithreaded then raiLock
  let err ← do
    match ← redisCommand (setCommand rt hash datastr) with
    | none => do
        handleRedisError
        pure 503
    | some reply => pure (postError reply)
  if rt.multithreaded then raiUnlock
  return err

/-- `post`. -/
def post (req : WsReq) (rt : Wsrt) (ri : Srci) : Prog Rai (Bytes × Srci) := do
  if req.urllen ≠ req.hashlen then
    return (ascii "malformed request - invalid url", ri.setReturnCode httpBadRequest)
  let datalen := ri.postDataLen
  if datalen < 5 then
    return (ascii "malformed request - invalid length", ri.setReturnCode httpBadRequest)
  let dataptr := ri.postData
  let z ← orDie (z85Validate dataptr datalen)
  if z ≠ 0 then
    return (ascii "malformed request - invalid Z85", ri.setReturnCode httpBadRequest)
  match ← orDie (convertHash req.url req.urllen) with
  | none => return (ascii "malformed request - invalid token", ri.setReturnCode httpBadRequest)
  | some hash =>
      -- what went wrong with the SET is the code of the answer
      let z ← doRedisPost rt hash dataptr datalen
      if z ≠ 0 then
        let page :=
          if z = 304 then ascii "object immutable - not modified"
          else if z = 417 then ascii "redis reply error"
          else if z = 503 then ascii "service unavailable"
          else ascii "internal server error"
        return (page, ri.setReturnCode z)
      return (ascii "ok", ri.setReturnCode httpOk)

/-- `shutdownmsg`. -/
def shutdownmsg (ri : Srci) : Bytes × Srci :=
  (ascii "service unavailable: shutting down", ri.setReturnCode httpServiceUnavailable)

/-- The body the six store nodes share. -/
def storeNode (type : Nat) (hashlen : Int) (url : Bytes) (urllen : Int) (ri : Srci) (rt : Wsrt) :
    Prog Rai (Bytes × Srci) := do
  -- read without the lock
  if ← shuttingDown then return shutdownmsg ri
  let req : WsReq := ⟨type, hashlen, url, urllen⟩
  match ri.methodType with
  | .get => get req rt ri
  | .post => post req rt ri
  | _ => return (ascii "method not allowed", ri.setReturnCode httpMethodNotAllowed)

def node128 := storeNode 1 hashlen128
def node160 := storeNode 2 hashlen160
def node224 := storeNode 3 hashlen224
def node256 := storeNode 4 hashlen256
def node384 := storeNode 5 hashlen384
def node512 := storeNode 6 hashlen512

/-! ## The configuration page -/

/-- `sizeof(page)` in `nodecfg`. -/
def cfgPageSize : Nat := 128 * 4

/-- `n += snprintf(page+n, sizeof(page)-n, ...)`. -/
def appendf (page : Bytes × Nat) (text : Bytes) : Bytes × Nat :=
  (page.1 ++ snprintf (cfgPageSize - page.2) text, page.2 + text.length)

/-- `%d` of a flag. -/
def flag (b : Bool) : Bytes := if b then ascii "1" else ascii "0"

/-- `nodecfg`. -/
def nodecfg (url : Bytes) (_urllen : Int) (ri : Srci) (rt : Wsrt) : Prog Rai (Bytes × Srci) := do
  if ← shuttingDown then return shutdownmsg ri
  if ri.methodType ≠ .get then
    return (ascii "method not allowed", ri.setReturnCode httpMethodNotAllowed)
  let all := url == ascii "all"
  let maxuploadsize := all || url == ascii "maxuploadsize"
  let expiration := all || url == ascii "expiration"
  let immutable := all || url == ascii "immutable"
  let bar := all || url == ascii "bar"
  if !(maxuploadsize || expiration || immutable || bar) then
    let page := snprintf cfgPageSize (ascii "Unknown Config Option: " ++ url ++ ascii "\n")
    return (page, ri.setReturnCode httpNotFound)
  let page : Bytes × Nat := ([], 0)
  let page := if maxuploadsize then
    appendf page (ascii "MAXUPLOADSIZE: " ++ ll2string rt.maxPostDataSize ++ ascii " bytes\n")
    else page
  let page := if expiration then
    appendf page (ascii "EXPIRATION: " ++ decimal rt.expiration ++ ascii " seconds\n") else page
  let page := if immutable then
    appendf page (ascii "IMMUTABLE: " ++ flag rt.immutable ++ ascii "\n") else page
  let page := if bar then
    appendf page (ascii "BAR: " ++ flag rt.bar ++ ascii "\n") else page
  return (page.1, ri.setReturnCode httpOk)

/-! ## Requests to the store nodes -/

/-- The six stores. -/
inductive HashAlg where
  | alg128
  | alg160
  | alg224
  | alg256
  | alg384
  | alg512
deriving DecidableEq, Repr

/-- The callback of each store. -/
def HashAlg.node : HashAlg → Bytes → Int → Srci → Wsrt → Prog Rai (Bytes × Srci)
  | .alg128 => node128
  | .alg160 => node160
  | .alg224 => node224
  | .alg256 => node256
  | .alg384 => node384
  | .alg512 => node512

/-- A request as it reaches a store node: the URL after the node's root and
    the upload as far as it was received. -/
structure NodeReq where
  alg : HashAlg
  method : Method
  url : Bytes
  body : Bytes

/-- The record the framework hands over with it. -/
def NodeReq.srci (r : NodeReq) : Srci :=
  { Srci.zero with
    methodType := r.method
    contentLength := r.body.length
    postData := r.body
    postDataLen := r.body.length }

/-- Serve one request: call the node, then answer with its page and code. -/
def NodeReq.serve (rt : Wsrt) (r : NodeReq) : Prog Rai Response := do
  let (page, ri) ← r.alg.node r.url r.url.length r.srci rt
  return ⟨ri.returnCode, page⟩

/-- The store nodes at work. -/
@[reducible] def nodeMachine (P : Policy) (rt : Wsrt) :
    Machine Rai Server NodeReq Response Env Outcome :=
  raiMachine P rt.multithreaded (NodeReq.serve rt)

end Webstore
