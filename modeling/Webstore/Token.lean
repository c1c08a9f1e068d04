/-
  Webstore.Token

  Addressing on the side of the clients: the token of a message, the URL of a
  token, and the tokens a user may supply.  The digest library is a parameter.
-/
import Webstore.Libc.Hex
import Webstore.Node

namespace Webstore

open Webstore.Libc

/-! ## Tokens -/

/-- The digests the clients pick from the library. -/
inductive GcAlg where
  | md5
  | sha1
  | sha224
  | sha256
  | sha384
  | sha512
deriving DecidableEq, Repr

/-- The digest library: the code with which `gcry_md_open` fails, 0 if it does
    not, `gcry_md_get_algo_dlen`, and the digest of a message. -/
structure Gcrypt where
  mdOpen : GcAlg → Int
  mdGetAlgoDlen : GcAlg → Nat
  mdRead : GcAlg → Bytes → Bytes

/-- `GCALG128` to `GCALG512` by `HASHALG128` to `HASHALG512`. -/
def gcalgOf (alg : Int) : Option GcAlg :=
  if alg = 1 then some .md5
  else if alg = 2 then some .sha1
  else if alg = 3 then some .sha224
  else if alg = 4 then some .sha256
  else if alg = 5 then some .sha384
  else if alg = 6 then some .sha512
  else none

/-- The loop of `gen_hash` from `digest[i]` on, with `n` bytes to go; every
    `sprintf` ends in a terminator that the next one overwrites. -/
def genHashFrom (digest hash : Bytes) (i : Nat) : Nat → Except Fault Bytes
  | 0 => .ok hash
  | n + 1 => do
      let c ← load digest i
      let hash ← memcpy hash (i * 2) (hexByte c ++ [0])
      genHashFrom digest hash (i + 1) n

/-- `gen_hash`. -/
def genHash (digest : Bytes) (dsize : Nat) : Except Fault Bytes := do
  let hashLen := dsize * 2 + 1
  let hash ← genHashFrom digest (List.replicate hashLen 0) 0 dsize
  return cString hash

/-- `create_token`. -/
def createToken (lib : Gcrypt) (alg : Int) (msg : Bytes) (msglen : Nat) :
    Except Fault (Option Bytes) := do
  let some gcalg := gcalgOf alg | return none
  if lib.mdOpen gcalg ≠ 0 then return none
  let msg ← readBytes msg msglen
  let dsize := lib.mdGetAlgoDlen gcalg
  let digest := lib.mdRead gcalg msg
  let token ← genHash digest dsize
  return some token

/-- `valid_token`. -/
def validToken (token : Bytes) : Int :=
  let len : Int := (cString token).length
  if len = hashlen128 then 1
  else if len = hashlen160 then 1
  else if len = hashlen224 then 1
  else if len = hashlen256 then 1
  else if len = hashlen384 then 1
  else if len = hashlen512 then 1
  else 0

/-- The checks of `parse_args` in `ws_post` on `-t` and `-a`. -/
def tokenArgs (gToken : Option Bytes) (gAlg : Int) : Bool :=
  match gToken with
  | some token => validToken token ≠ 0 && gAlg = 0
  | none => ¬ (gAlg < 1 ∨ 6 < gAlg)

/-! ## URLs -/

/-- The node `create_url` asks, by the length of the token. -/
def urlNode (token : Bytes) : Option Bytes :=
  let len : Int := (cString token).length
  if len = hashlen128 then some (ascii "128")
  else if len = hashlen160 then some (ascii "160")
  else if len = hashlen224 then some (ascii "224")
  else if len = hashlen256 then some (ascii "256")
  else if len = hashlen384 then some (ascii "384")
  else if len = hashlen512 then some (ascii "512")
  else none

/-- `sizeof(url)`. -/
def urlSize : Nat := 2048

/-- `%s://%s:%u`. -/
def urlOrigin (host : Bytes) (port : UInt16) (secure : Bool) : Bytes :=
  (if secure then ascii "https" else ascii "http") ++ ascii "://" ++ cString host ++ ascii ":" ++
    decimal port.toNat

/-- `/store/%s/%s`. -/
def urlStore (node token : Bytes) : Bytes :=
  ascii "/store/" ++ node ++ ascii "/" ++ cString token

/-- `create_url`. -/
def createUrl (host : Bytes) (port : UInt16) (token : Bytes) (secure : Bool) : Option Bytes :=
  match urlNode token with
  | none => none
  | some node => some (snprintf urlSize (urlOrigin host port secure ++ urlStore node token))

/-- `encode_msg_and_post` up to the call of `post_msg`: the token and the URL
    it posts to. -/
def postAddress (lib : Gcrypt) (gToken : Option Bytes) (host : Bytes) (port : UInt16) (alg : Int)
    (msg : Bytes) (len : Nat) (gSecure : Bool) : Except Fault (Option (Bytes × Bytes)) := do
  let token ←
    match gToken with
    | some token => pure (some (cString token))
    | none => createToken lib alg msg len
  match token with
  | none => return none
  | some token =>
      match createUrl host port token gSecure with
      | none => return none
      | some url => return some (token, url)

end Webstore
