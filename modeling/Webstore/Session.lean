/-
  Webstore.Session

  The two clients from their arguments to their exit codes, and what they have
  to do with the requests the server gets.  What libcurl does with a URL is a
  parameter: no handle, an error after some pieces of a response, or a response
  with its status code.
-/
import Webstore.Client
import Webstore.Daemon
import Webstore.Token.Agree

namespace Webstore

open Webstore.Libc Webstore.Sched

/-! ## libcurl -/

/-- What `curl_easy_init` and `curl_easy_perform` come to. -/
inductive CurlEnd where
  | noHandle
  | failed (pieces : List Bytes)
  | response (httpCode : Int) (pieces : List Bytes)

/-- `ws_curl_get` and `ws_curl_post`: the value returned, the status code and
    the response. -/
def wsCurl : CurlEnd → Except Fault (Int × Int × CurlResp)
  | .noHandle => return (1, 0, CurlResp.zero)
  | .failed pieces => do
      let r ← collect CurlResp.zero pieces
      -- the page is freed, the count stays
      return (2, 0, { r with page := none })
  | .response httpCode pieces => do
      let r ← collect CurlResp.zero pieces
      return (0, httpCode, r)

/-! ## ws_post -/

/-- `post_msg`. -/
def postMsg (perform : Bytes → Bytes → CurlEnd) (url z85block : Bytes) : Except Fault Int := do
  let (curlerr, httpCode, _) ← wsCurl (perform url (cString z85block))
  if curlerr ≠ 0 then return 1
  else if httpCode ≠ 200 then return 1
  else return 0

/-- The options of `ws_post` as `parse_args` leaves them. -/
structure PostArgs where
  host : Bytes
  port : UInt16
  alg : Int
  token : Option Bytes
  secure : Bool
  comp : Bool
  message : Bytes

/-- The libraries the clients are linked with. -/
structure ClientLibs where
  heap : Heap
  gcrypt : Gcrypt
  miniz : Miniz

/-- `encode_msg_and_post`: the token, or NULL. -/
def encodeMsgAndPost (libs : ClientLibs) (g : PostArgs) (perform : Bytes → Bytes → CurlEnd) :
    Except Fault (Option Bytes) := do
  let some z85block ← encodeMsg libs.heap g.comp libs.miniz g.message g.message.length
    | return none
  let some (token, url) ←
    postAddress libs.gcrypt g.token g.host g.port g.alg g.message g.message.length g.secure
    | return none
  let err ← postMsg perform url z85block
  if err ≠ 0 then return none
  else return some token

/-- `main` of `ws_post` after `parse_args`: the exit code and the token that is
    printed; `gcinit` is what `ws_gcinit` returns. -/
def wsPostMain (libs : ClientLibs) (gcinit : Int) (g : PostArgs)
    (perform : Bytes → Bytes → CurlEnd) : Except Fault (Int × Option Bytes) := do
  if gcinit ≠ 0 then return (1, none)
  match ← encodeMsgAndPost libs g perform with
  | some token => return (0, some token)
  | none => return (1, none)

/-! ## ws_get -/

/-- The options of `ws_get`, `-f` among them or not. -/
structure GetArgs where
  host : Bytes
  port : UInt16
  token : Bytes
  toFile : Bool
  secure : Bool

/-- `main` of `ws_get` after `parse_args`: the exit code and what is written. -/
def wsGetMain (libs : ClientLibs) (g : GetArgs) (perform : Bytes → CurlEnd) :
    Except Fault (Int × Option Bytes) := do
  let some url := createUrl g.host g.port g.token g.secure | return (1, none)
  let (z, httpCode, resp) ← wsCurl (perform url)
  if z ≠ 0 then return (1, none)
  else if httpCode ≠ 200 then return (1, none)
  else return (0, ← handlePage libs.heap libs.miniz g.toFile resp)

/-! ## Clients and server -/

/-- The request that libcurl makes of a URL, a method and a body. -/
structure Exchange.Carries (x : Exchange) (origin url method body : Bytes) : Prop where
  url : ∃ path, url = origin ++ path ∧ x.hdr.url = some path
  method : x.hdr.method = some method
  body : x.body = body

/-- The network may fail, but a response is one that the server has given. -/
def Relays (d : MhdResult) : CurlEnd → Prop
  | .response httpCode pieces => ∃ page, d = .queued ⟨httpCode, page⟩ ∧ pieces.flatten = page
  | _ => True

/-- The request comes from `ws_post` with these options, and its URL was not cut
    off. -/
structure Exchange.PostedBy (x : Exchange) (libs : ClientLibs) (g : PostArgs) : Prop where
  nonempty : g.message ≠ []
  sent : ∃ z85block token url,
    encodeMsg libs.heap g.comp libs.miniz g.message g.message.length = .ok (some z85block) ∧
    postAddress libs.gcrypt g.token g.host g.port g.alg g.message g.message.length g.secure =
      .ok (some (token, url)) ∧
    x.Carries (urlOrigin g.host g.port g.secure) url (ascii "POST") (cString z85block) ∧
    UrlFits g.host g.port token g.secure

/-- The request comes from `ws_get` with these options, and its URL was not cut
    off. -/
structure Exchange.AskedBy (x : Exchange) (g : GetArgs) : Prop where
  sent : ∃ url, createUrl g.host g.port g.token g.secure = some url ∧
    x.Carries (urlOrigin g.host g.port g.secure) url (ascii "GET") []
  fits : UrlFits g.host g.port g.token g.secure

end Webstore
