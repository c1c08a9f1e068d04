/-
  Webstore.Searest

  The service framework: an instance with its URL and upload limits and its
  list of nodes, the search for the node a URL belongs to, and the handler
  that the HTTP library calls several times for every request, first for the
  headers, then for each piece of the upload, and at last to get an answer.
  Response headers are left out: no node sets one.
-/
import Webstore.Redis
import Webstore.Srci

namespace Webstore

open Webstore.Libc Webstore.Sched

/-- `SR_NODE_CALLBACK`: the URL after the root, its length and the request. -/
abbrev NodeCallback := Bytes → Int → Srci → Prog Rai (Option Bytes × Srci)

/-- `srn_t`. -/
structure Srn where
  num : UInt32
  disabled : Bool
  root : Bytes
  cb : NodeCallback

/-- `sri_t`: the limits and the list of nodes. -/
structure Sri where
  minUrlLen : Int
  maxUrlLen : Int
  maxContentLength : Nat
  nodelist : List Srn

/-- `searest_new`. -/
def searestNew (urlmin urlmax : Int) (contentmax : Nat) : Sri := ⟨urlmin, urlmax, contentmax, []⟩

/-! ## The list of nodes -/

/-- `searest_node_add`: append to the list. -/
def searestNodeAdd (ws : Sri) (rootname : Bytes) (func : NodeCallback) : Sri :=
  let num :=
    match ws.nodelist.getLast? with
    | none => 1
    | some prev => prev.num + 1
  { ws with nodelist := ws.nodelist ++ [⟨num, false, cString rootname, func⟩] }

/-- `searest_node_find`: the first node whose root the name begins with. -/
def searestNodeFind (ws : Sri) (rootname : Bytes) : Option Srn :=
  ws.nodelist.find? fun n => strncmpEq rootname n.root n.root.length

/-- `searest_node_len`. -/
def searestNodeLen (n : Srn) : Nat := n.root.length

/-- `process_request`. -/
def processRequest (ws : Sri) (ri : Srci) : Prog Rai (Option Bytes × Srci) :=
  match searestNodeFind ws ri.url with
  | none =>
      return (some (ascii "node not found"),
        { ri with returnCode := httpNotFound, returnPage := some (ascii "node not found") })
  | some n =>
      if n.disabled then
        return (some (ascii "node not enabled"),
          { ri with
            returnCode := httpServiceUnavailable
            returnPage := some (ascii "node not enabled") })
      else do
        let nlen := searestNodeLen n
        -- the length goes through `size_t` on its way to the `int` of the callback
        let urllen := toInt ((toSizeT ri.urllen : Int) - nlen)
        let (page, ri) ← n.cb (ri.url.drop nlen) urllen ri
        return (page, { ri with returnPage := page })

/-! ## The handler -/

/-- What the library passes with every call for one request. -/
structure Headers where
  url : Option Bytes
  method : Option Bytes
  version : Option Bytes
  contentLength : Option Bytes

/-- What a call comes to before it processes the request, if it does: no, or
    yes and the record to go on with, or the upload is complete. -/
inductive Received where
  | no (conCls : Option Srci)
  | yes (ri : Srci)
  | complete (ri : Srci)
deriving DecidableEq

/-- `Process Method`. -/
def methodType (method : Bytes) : Option Method :=
  if cString method = ascii "GET" then some .get
  else if cString method = ascii "POST" then some .post
  else if cString method = ascii "PUT" then some .put
  else if cString method = ascii "DELETE" then some .del
  else if cString method = ascii "OPTIONS" then some .opt
  else none

/-- The first call of `uhd_request_started`: check the headers. -/
def uhdHeaders (ws : Sri) (hdr : Headers) (url method : Bytes) : Received :=
  let ri := { Srci.zero with url := cString url, urllen := toInt (cString url).length }
  if ri.urllen < ws.minUrlLen then .no (some ri)
  else if ws.maxUrlLen < ri.urllen then .no (some ri)
  else if (cString method).length < 3 then .no (some ri)
  else if 7 < (cString method).length then .no (some ri)
  else
    let ri :=
      match hdr.contentLength with
      | some h => { ri with contentLength := toSizeT (atol (cString h)) }
      | none => ri
    if hdr.contentLength.isSome && ws.maxContentLength < ri.contentLength then .no (some ri)
    else
      match methodType method with
      | some m => .yes { ri with methodType := m }
      | none => .no (some ri)

/-- `uhd_request_started` up to the call of `process_request`. -/
def uhdReceive (ws : Sri) (hdr : Headers) (uploadData : Bytes) (conCls : Option Srci) :
    Except Fault Received :=
  match hdr.url, hdr.method, hdr.version with
  | some url, some method, some _ =>
      match conCls with
      | none => return uhdHeaders ws hdr url method
      | some ri =>
          if uploadData ≠ [] then do
            let blobsize := uploadData.length
            let newbufsize := (ri.postDataLen + blobsize) % 2 ^ 64
            if ri.contentLength < newbufsize then return .no (some ri)
            let postData ← memcpy (realloc ri.postData newbufsize) ri.postDataLen uploadData
            return .yes { ri with postData, postDataLen := ri.postDataLen + blobsize }
          else if ri.postDataLen < ri.contentLength then return .no (some ri)
          else return .complete ri
  | _, _, _ => return .no conCls

/-- What the library gets from a call: no, yes, or yes with a response queued. -/
inductive MhdResult where
  | no
  | yes
  | queued (resp : Response)
deriving DecidableEq

/-- The end of `uhd_request_started`: queue the page of the node, with 200 if
    the node set no code. -/
def queuePage : Option Bytes × Srci → MhdResult × Option Srci
  | (none, ri) => (.no, some ri)
  | (some page, ri) =>
      let ri := if ri.returnCode = 0 then { ri with returnCode := httpOk } else ri
      (.queued ⟨ri.returnCode, cString page⟩, some ri)

/-- `uhd_request_started`. -/
def uhdRequestStarted (ws : Sri) (hdr : Headers) (uploadData : Bytes) (conCls : Option Srci) :
    Prog Rai (MhdResult × Option Srci) := do
  match ← orDie (uhdReceive ws hdr uploadData conCls) with
  | .no conCls => return (.no, conCls)
  | .yes ri => return (.yes, some ri)
  | .complete ri => return queuePage (← processRequest ws ri)

/-! ## One request -/

/-- The calls for the pieces of an upload, then the last one. -/
def uhdUpload (ws : Sri) (hdr : Headers) (conCls : Option Srci) : List Bytes → Prog Rai MhdResult
  | [] => do return (← uhdRequestStarted ws hdr [] conCls).1
  | c :: chunks => do
      match ← uhdRequestStarted ws hdr c conCls with
      | (.yes, conCls) => uhdUpload ws hdr conCls chunks
      | (ret, _) => return ret

/-- All the calls the library makes for one request: one with the headers, one
    for each piece of the upload, and an empty one, as long as the handler says
    yes. -/
def uhdRequest (ws : Sri) (hdr : Headers) (chunks : List Bytes) : Prog Rai MhdResult := do
  match ← uhdRequestStarted ws hdr [] none with
  | (.yes, conCls) => uhdUpload ws hdr conCls chunks
  | (ret, _) => return ret

end Webstore
