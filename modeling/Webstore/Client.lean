/-
  Webstore.Client

  The clients: how `ws_post` makes a block of a message, how the response to
  `ws_get` is collected, and what `ws_get` makes of it.  The compression
  library is a parameter.  Allocations succeed.
-/
import Webstore.Libc.Memory
import Webstore.Z85

namespace Webstore

open Webstore.Libc

/-! ## Compression -/

/-- The compression library: what its two functions put into a destination of
    the given capacity, or the code with which they fail. -/
structure Miniz where
  compress : Nat → Bytes → Except Int Bytes
  uncompress : Nat → Bytes → Except Int Bytes
  compress_le : ∀ {cap src out}, compress cap src = .ok out → out.length ≤ cap
  uncompress_le : ∀ {cap src out}, uncompress cap src = .ok out → out.length ≤ cap

/-- `mz_compressBound`. -/
def mzCompressBound (sourceLen : Nat) : Nat :=
  max ((128 + sourceLen * 110 % 2 ^ 64 / 100) % 2 ^ 64)
    ((128 + sourceLen + (sourceLen / (31 * 1024) + 1) * 5) % 2 ^ 64)

/-- `md_t`; a NULL pointer is `none`. -/
structure Md where
  origData : Option Bytes
  origLen : Nat
  compData : Option Bytes
  compLen : Nat
  err : Int

/-- `mza_squash`. -/
def mzaSquash (lib : Miniz) (data : Bytes) (size : Nat) : Except Fault Md := do
  let data ← readBytes data size
  let compLen := mzCompressBound size
  match lib.compress compLen data with
  | .error err => return ⟨none, 0, none, 0, err⟩
  | .ok out =>
      let compData ← memcpy (calloc compLen) 0 out
      return ⟨none, 0, some compData, out.length, 0⟩

/-- `mza_restore`. -/
def mzaRestore (lib : Miniz) (compStr : Bytes) (compLen origLen : Nat) : Except Fault Md := do
  let compStr ← readBytes compStr compLen
  -- without a hint, room for ten times what came
  let origLen := if 0 < origLen then origLen else 10 * compLen % 2 ^ 64
  match lib.uncompress origLen compStr with
  | .error err => return ⟨none, 0, none, 0, err⟩
  | .ok out =>
      let origData ← memcpy (calloc origLen) 0 out
      return ⟨some origData, out.length, none, 0, 0⟩

/-! ## ws_post -/

/-- The bytes and the size `encode_msg` goes on with. -/
def choosePayload (gComp : Bool) (lib : Miniz) (msg : Bytes) (len : Nat) :
    Except Fault (Bytes × Nat) := do
  if !gComp then return (msg, len)
  let mz ← mzaSquash lib msg len
  match mz.compData with
  | some compData =>
      if mz.compLen ≠ 0 ∧ mz.compLen < len then return (compData, mz.compLen)
      else return (msg, len)
  | none => return (msg, len)

/-- `encode_msg`. -/
def encodeMsg (heap : Heap) (gComp : Bool) (lib : Miniz) (msg : Bytes) (len : Nat) :
    Except Fault (Option Bytes) := do
  let (msg, len) ← choosePayload gComp lib msg len
  let bufsize := (1 + Z85.encodeWithPaddingBound len) % 2 ^ 64
  let (z85block, encbytes) ← Z85.encodeWithPadding msg (heap.malloc bufsize) len
  if encbytes = 0 then return none
  let z85block ← store z85block encbytes 0
  return some z85block

/-! ## Responses -/

/-- `curlresp_t` without the status code. -/
structure CurlResp where
  bytecount : Nat
  page : Option Bytes

/-- A response before anything of it came in. -/
def CurlResp.zero : CurlResp := ⟨0, none⟩

/-- `save_response`. -/
def saveResponse (ptr : Bytes) (r : CurlResp) : Except Fault CurlResp := do
  let incdatasize := ptr.length
  let newpagesize := r.bytecount + incdatasize
  -- one byte more than has come in, for the terminator
  let page := realloc (r.page.getD []) (newpagesize + 1)
  let page ← memcpy page r.bytecount ptr
  let page ← store page newpagesize 0
  return ⟨newpagesize, some page⟩

/-- One call of `save_response` for each piece of the response. -/
def collect (r : CurlResp) : List Bytes → Except Fault CurlResp
  | [] => .ok r
  | ptr :: ptrs => do
      let r ← saveResponse ptr r
      collect r ptrs

/-! ## ws_get -/

/-- `inflate_msg`. -/
def inflateMsg (lib : Miniz) (pack : Bytes) (bytes : Nat) :
    Except Fault (Option (Bytes × Nat)) := do
  let mz ← mzaRestore lib pack bytes 0
  match mz.origData with
  | none => return none
  | some origData =>
      if mz.origLen = 0 then return none
      let orig ← readBytes origData mz.origLen
      let data ← memcpy (calloc (mz.origLen + 1)) 0 orig
      return some (data, mz.origLen)

/-- `decode_msg`: the decoded bytes in their buffer and their number.  For a
    NULL message the bound is 0, and the decoder asserts that there is one. -/
def decodeMsg (heap : Heap) (msg : Option Bytes) (len : Nat) :
    Except Fault (Option (Bytes × Nat)) := do
  let some msg := msg | throw .assertion
  let bufsize := (1 + (← Z85.decodeWithPaddingBound msg len)) % 2 ^ 64
  let (dec, decbytes) ← Z85.decodeWithPadding msg (heap.malloc bufsize) len
  if decbytes = 0 then return none
  let dec ← store dec decbytes 0
  return some (dec, decbytes)

/-- The test of `handle_page` for compressed bytes. -/
def looksPacked (data : Bytes) (bytes : Nat) : Except Fault Bool := do
  -- a message of six bytes or fewer is never taken for compressed
  if 6 < bytes then return (← load data 0) == 0x78 && (← load data 1) == 0x01
  else return false

/-- `handle_page`: what is written, if anything, to the output file if one is
    given and to the standard output if not. -/
def handlePage (heap : Heap) (lib : Miniz) (toFile : Bool) (r : CurlResp) :
    Except Fault (Option Bytes) := do
  let some (data, bytes) ← decodeMsg heap r.page r.bytecount | return none
  let packed ← looksPacked data bytes
  let some (data, bytes) ← if packed then inflateMsg lib data bytes else pure (some (data, bytes))
    | return none
  if toFile then return some (← readBytes data bytes)
  else return some (cString data)

end Webstore
