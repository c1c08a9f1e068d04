/-
  Webstore.Srci

  What the service framework knows about one request, and the constants it
  shares with the nodes.
-/
import Webstore.Libc

namespace Webstore

open Webstore.Libc

/-- `METHOD_GET` to `METHOD_OPT`; `unset` is the 0 of a fresh record. -/
inductive Method where
  | unset
  | get
  | post
  | put
  | del
  | opt
deriving DecidableEq, Repr

/-! ## `MHD_HTTP_*` -/

def httpOk : Int := 200
def httpNotModified : Int := 304
def httpBadRequest : Int := 400
def httpNotFound : Int := 404
def httpMethodNotAllowed : Int := 405
def httpServiceUnavailable : Int := 503

/-- `srci_t`. -/
structure Srci where
  methodType : Method
  url : Bytes
  urllen : Int
  contentLength : Nat
  postData : Bytes
  postDataLen : Nat
  returnCode : Int
  returnPage : Option Bytes
deriving DecidableEq

/-- What `calloc` gives. -/
def Srci.zero : Srci := ⟨.unset, [], 0, 0, [], 0, 0, none⟩

/-- `srci_set_return_code`. -/
def Srci.setReturnCode (ri : Srci) (code : Int) : Srci := { ri with returnCode := code }

@[simp] theorem Srci.returnCode_setReturnCode (ri : Srci) (code : Int) :
    (ri.setReturnCode code).returnCode = code := rfl

/-- What goes back to the client. -/
structure Response where
  code : Int
  page : Bytes
deriving DecidableEq

end Webstore
