/-
  Webstore.Daemon

  The server as the network sees it: connections whose addresses are checked,
  and HTTP requests from the headers to the answer, any number of them at a
  time, on the one Redis context.  `Webstore.Service` starts where a request
  has arrived; here its headers and the pieces of its body come first.
-/
import Webstore.Conn
import Webstore.Searest.Upload
import Webstore.Uhd

namespace Webstore

open Webstore.Libc Webstore.Sched

deriving instance DecidableEq for Headers

/-- One HTTP request: what the library passes with every call, and the pieces
    in which the body comes. -/
structure Exchange where
  hdr : Headers
  chunks : List Bytes
  pieces : Pieces chunks
deriving DecidableEq

/-- No body comes in no pieces. -/
theorem pieces_nil : Pieces [] := List.forall_mem_nil _

/-- The body as it was sent. -/
def Exchange.body (x : Exchange) : Bytes := x.chunks.flatten

/-- What comes in. -/
inductive Arrival where
  | connection (incIp : Bytes)
  | exchange (x : Exchange)
deriving DecidableEq

/-- What goes out. -/
inductive Departure where
  | verdict (z : Int)
  | result (r : MhdResult)
deriving DecidableEq

/-- Whether `webstore_start` registers `ws_addr_check`. -/
def Wsrt.limited (rt : Wsrt) : Bool := 0 < rt.reqperiod && 0 < rt.reqcount

/-- `uhd_client_connect` on the text of an address. -/
def clientConnect (rt : Wsrt) (incIp : Bytes) : Prog Rai Int :=
  if rt.limited then wsAddrCheck rt incIp else return srIpAccept

/-- Check an address, or make all the calls for a request. -/
def attend (rt : Wsrt) : Arrival → Prog Rai Departure
  | .connection incIp => do return .verdict (← clientConnect rt incIp)
  | .exchange x => do return .result (← uhdRequest (webstoreStart rt) x.hdr x.chunks)

/-- The server at work. -/
@[reducible] def daemonMachine (P : Policy) (rt : Wsrt) :
    Machine Rai Server Arrival Departure Env Outcome :=
  raiMachine P rt.multithreaded (attend rt)

abbrev DaemonEvent := Event Rai Server Arrival Env

abbrev DaemonSys := Sys Rai Server Arrival Departure

/-- Requests and answers of the threads, as far as a schedule leads. -/
def daemonAnswers (P : Policy) (rt : Wsrt) (a : Server) (ls : List (Label Arrival Env Outcome)) :
    Option (List (Arrival × Option Departure)) :=
  ((daemonMachine P rt).follow (Machine.init a) ls).map fun r =>
    r.2.threads.map fun t => (t.req, t.code.answer?)

/-- Where a schedule leads, a run leads, and its threads have answered so. -/
theorem run_of_daemonAnswers {P : Policy} {rt : Wsrt} {a : Server}
    {ls : List (Label Arrival Env Outcome)} {ans : List (Arrival × Option Departure)}
    (h : daemonAnswers P rt a ls = some ans) :
    ∃ hist s, (daemonMachine P rt).Run (Machine.init a) hist s ∧
      s.threads.map (fun t => (t.req, t.code.answer?)) = ans ∧
      ∀ (i : Nat) (r : Arrival) (d : Departure),
        ans[i]? = some (r, some d) → s.threads[i]? = some ⟨r, .done d⟩ := by
  obtain ⟨⟨hist, s⟩, hf, rfl⟩ := Option.map_eq_some_iff.mp h
  refine ⟨hist, s, Machine.run_of_follow hf, rfl, fun i r d hi => ?_⟩
  rw [List.getElem?_map, Option.map_eq_some_iff] at hi
  obtain ⟨⟨req, code⟩, ht, heq⟩ := hi
  obtain ⟨rfl, hcode⟩ := Prod.mk.inj heq
  obtain rfl := Prog.answer?_eq_some.mp hcode
  exact ht

/-- The upload limit is a `long` that is not negative. -/
def Wsrt.LimitOk (rt : Wsrt) : Prop := 0 ≤ rt.maxPostDataSize ∧ rt.maxPostDataSize < 2 ^ 63

/-- A limit in range is the one that uploads are measured with. -/
theorem Wsrt.LimitOk.maxContentLength {rt : Wsrt} (h : rt.LimitOk) :
    (webstoreStart rt).maxContentLength = rt.maxPostDataSize.toNat ∧
      (webstoreStart rt).maxContentLength ≤ longMax := by
  obtain ⟨h₀, h₁⟩ := h
  have hsize : (webstoreStart rt).maxContentLength = toSizeT rt.maxPostDataSize := rfl
  rw [hsize]
  unfold toSizeT longMax
  omega

end Webstore
