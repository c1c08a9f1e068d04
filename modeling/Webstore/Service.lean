/-
  Webstore.Service

  The whole server on its one Redis context: connections whose addresses are
  checked, and requests that the framework hands to a registered node.
-/
import Webstore.Conn
import Webstore.Uhd

namespace Webstore

open Webstore.Libc Webstore.Sched

/-- What comes in. -/
inductive Incoming where
  | connection (incIp : Bytes)
  | request (ri : Srci)

/-- What the server makes of it. -/
inductive Outgoing where
  | verdict (z : Int)
  | page (page : Option Bytes) (ri : Srci)
deriving DecidableEq

/-- Check an address, or process a request. -/
def serve (rt : Wsrt) : Incoming → Prog Rai Outgoing
  | .connection incIp => do return .verdict (← wsAddrCheck rt incIp)
  | .request ri => do
      let (page, ri) ← processRequest (webstoreStart rt) ri
      return .page page ri

/-- A request as the framework passes it on. -/
def processed (method : Method) (url body : Bytes) : Incoming :=
  .request { Srci.zero with
    methodType := method
    url := url
    urllen := url.length
    contentLength := body.length
    postData := body
    postDataLen := body.length }

/-- The server at work. -/
@[reducible] def serviceMachine (P : Policy) (rt : Wsrt) :
    Machine Rai Server Incoming Outgoing Env Outcome :=
  raiMachine P rt.multithreaded (serve rt)

abbrev ServiceEvent := Event Rai Server Incoming Env

/-! ## The registered nodes -/

/-- A request goes to the node that is found for it. -/
theorem serve_found {rt : Wsrt} {ri : Srci} {n : Srn}
    (h : searestNodeFind (webstoreStart rt) ri.url = some n) :
    ∃ node ∈ callbacks, ∃ url urllen, serve rt (.request ri) =
      (node url urllen ri rt >>= fun r =>
        .done (.page (some r.1) { r.2 with returnPage := some r.1 })) := by
  obtain ⟨hon, node, hnode, hcb⟩ := callback_of_mem (List.mem_of_find?_eq_some h)
  refine ⟨node, hnode, ri.url.drop n.root.length,
    toInt ((toSizeT ri.urllen : Int) - n.root.length), ?_⟩
  simp only [serve, processRequest, h, hon, hcb, nodeCallback, Bool.false_eq_true, if_false]
  rw [Prog.bind_assoc, Prog.bind_assoc]
  rfl

/-- Any other request is answered at once. -/
theorem serve_not_found {rt : Wsrt} {ri : Srci}
    (h : searestNodeFind (webstoreStart rt) ri.url = none) :
    ∃ a, serve rt (.request ri) = .done a := by
  refine ⟨.page (some (ascii "node not found"))
    { ri with returnCode := httpNotFound, returnPage := some (ascii "node not found") }, ?_⟩
  simp only [serve, processRequest, h]
  rfl

end Webstore
