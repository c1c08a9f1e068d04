/-
  Webstore.Sockaddr

  Where a connection comes from: socket addresses as they lie in memory, and
  the two functions that print the address of the other side, `client_ip_str`
  and `uhd_client_connect`.  Both look at an address of either family as a
  `struct sockaddr_in`.  What `inet_ntop` prints is a parameter.
-/
import Webstore.Redis

namespace Webstore

open Webstore.Libc Webstore.Sched

/-- `AF_INET` and `AF_INET6`. -/
inductive Family where
  | inet
  | inet6
deriving DecidableEq, Repr

/-- The size of a `struct in_addr` and of a `struct in6_addr`. -/
def Family.addrLen : Family → Nat
  | .inet => 4
  | .inet6 => 16

/-- `INET_ADDRSTRLEN` and `INET6_ADDRSTRLEN`. -/
def Family.addrStrLen : Family → Nat
  | .inet => 16
  | .inet6 => 46

/-! ## Socket addresses -/

/-- `struct sockaddr_in`, all in network order but for the family. -/
structure SockaddrIn where
  port : Vector UInt8 2
  addr : Vector UInt8 4
  zero : Vector UInt8 8

/-- `struct sockaddr_in6`. -/
structure SockaddrIn6 where
  port : Vector UInt8 2
  flowinfo : Vector UInt8 4
  addr : Vector UInt8 16
  scopeId : Vector UInt8 4

/-- The address of the other side of a connection. -/
inductive Sockaddr where
  | in4 (a : SockaddrIn)
  | in6 (a : SockaddrIn6)

/-- How it lies in memory, the family low byte first. -/
def Sockaddr.bytes : Sockaddr → Bytes
  | .in4 a => [2, 0] ++ a.port.toList ++ a.addr.toList ++ a.zero.toList
  | .in6 a => [10, 0] ++ a.port.toList ++ a.flowinfo.toList ++ a.addr.toList ++ a.scopeId.toList

/-- The IP address, without port, flow label and scope. -/
def Sockaddr.ip : Sockaddr → Family × Bytes
  | .in4 a => (.inet, a.addr.toList)
  | .in6 a => (.inet6, a.addr.toList)

/-! ## The functions -/

def mhdNo : Int := 0
def mhdYes : Int := 1

/-- `in->sin_family`, if it is one that is known. -/
def sinFamily (addr : Bytes) : Option Family :=
  if addr.take 2 = [2, 0] then some .inet
  else if addr.take 2 = [10, 0] then some .inet6
  else none

/-- `&in->sin_addr`, and what lies behind it. -/
def sinAddr (addr : Bytes) : Bytes := addr.drop 4

/-- `inet_ntop` with the room its family asks for; `ntop` is what it prints. -/
def inetNtop (ntop : Family → Bytes → Bytes) (af : Family) (src dst : Bytes) :
    Except Fault Bytes := do
  let a ← readBytes src af.addrLen
  if (ntop af a).length < af.addrStrLen then memcpy dst 0 (ntop af a ++ [0])
  else return dst

/-- `strdup` of a buffer. -/
def strdup (s : Bytes) : Except Fault Bytes :=
  if 0 ∈ s then .ok (cString s) else .error .outOfBounds

/-- `client_ip_str`: the library gives a pointer to a pointer.  `ipStr` is what
    is on the stack. -/
def clientIpStr (ntop : Family → Bytes → Bytes) (ipStr : Vector UInt8 128)
    (ci : Option (Option Bytes)) : Except Fault (Option Bytes) :=
  match ci with
  | none => return none
  | some none => return none
  | some (some addr) =>
      match sinFamily addr with
      | none => return none
      | some af => do
          let ipStr ← inetNtop ntop af (sinAddr addr) ipStr.toList
          return some (← strdup ipStr)

/-- `uhd_client_connect`. -/
def uhdClientConnect (ntop : Family → Bytes → Bytes) (ipStr : Vector UInt8 128)
    (addrCb : Option (Bytes → Prog Rai Int)) (addr : Option Bytes) : Prog Rai Int :=
  match addr, addrCb with
  | none, _ => return mhdNo
  | some _, none => return mhdYes
  | some addr, some addrCb =>
      match sinFamily addr with
      | none => return mhdNo
      | some af => do
          let ipStr ← orDie (inetNtop ntop af (sinAddr addr) ipStr.toList)
          let ip ← orDie (strdup ipStr)
          addrCb ip

/-! ## What they do -/

/-- What is documented of `inet_ntop`: the text of an address fits the room of
    its family, has no blank in it and a colon only for IPv6, and different
    addresses are printed differently. -/
structure Documented (ntop : Family → Bytes → Bytes) : Prop where
  short : ∀ af a, a.length = af.addrLen → (ntop af a).length < af.addrStrLen
  graph : ∀ af a, a.length = af.addrLen → ∀ c ∈ ntop af a, c ≠ 0 ∧ c ≠ 32
  colon : ∀ af a, a.length = af.addrLen → (58 ∈ ntop af a ↔ af = .inet6)
  injective : ∀ af a b, a.length = af.addrLen → b.length = af.addrLen →
    ntop af a = ntop af b → a = b

/-- What the functions take for the IP address: the bytes behind the port. -/
def Sockaddr.seen : Sockaddr → Family × Bytes
  | .in4 a => (.inet, a.addr.toList)
  | .in6 a => (.inet6, a.flowinfo.toList ++ a.addr.toList.take 12)

/-- The text they print. -/
def Sockaddr.text (ntop : Family → Bytes → Bytes) (c : Sockaddr) : Bytes := ntop c.seen.1 c.seen.2

theorem Sockaddr.length_seen (c : Sockaddr) : c.seen.2.length = c.seen.1.addrLen := by
  cases c <;> simp [seen, Family.addrLen]

theorem sinFamily_bytes (c : Sockaddr) : sinFamily c.bytes = some c.seen.1 := by
  cases c <;> rfl

/-- `sin_addr` comes after family and port. -/
theorem sinAddr_append {family : Bytes} (h : family.length = 2) (port : Vector UInt8 2)
    (rest : Bytes) : sinAddr (family ++ port.toList ++ rest) = rest :=
  List.drop_left' (by rw [List.length_append, h, Vector.length_toList])

/-- In a `struct sockaddr_in6` the flow label stands there, so that the last
    bytes of the address are left out. -/
theorem readBytes_sinAddr (c : Sockaddr) :
    readBytes (sinAddr c.bytes) c.seen.1.addrLen = .ok c.seen.2 := by
  cases c with
  | in4 a =>
      have hrest : sinAddr (Sockaddr.bytes (.in4 a)) = a.addr.toList ++ a.zero.toList := by
        rw [Sockaddr.bytes, List.append_assoc]
        exact sinAddr_append rfl a.port _
      have htake : (a.addr.toList ++ a.zero.toList).take 4 = a.addr.toList :=
        List.take_left' a.addr.length_toList
      rw [hrest, readBytes_eq (by simp [Sockaddr.seen, Family.addrLen])]
      exact congrArg _ htake
  | in6 a =>
      have hrest : sinAddr (Sockaddr.bytes (.in6 a)) =
          a.flowinfo.toList ++ (a.addr.toList ++ a.scopeId.toList) := by
        rw [Sockaddr.bytes, List.append_assoc, List.append_assoc]
        exact sinAddr_append rfl a.port _
      have htake : (a.flowinfo.toList ++ (a.addr.toList ++ a.scopeId.toList)).take 16 =
          a.flowinfo.toList ++ a.addr.toList.take 12 := by
        rw [List.take_append, List.take_of_length_le (by simp), a.flowinfo.length_toList,
          List.take_append_of_le_length (by simp)]
      rw [hrest, readBytes_eq (by simp [Sockaddr.seen, Family.addrLen])]
      exact congrArg _ htake

variable {ntop : Family → Bytes → Bytes}

/-- What is on the stack afterwards. -/
theorem Documented.print (h : Documented ntop) (ipStr : Vector UInt8 128) (c : Sockaddr) :
    ∃ s, inetNtop ntop c.seen.1 (sinAddr c.bytes) ipStr.toList = .ok s ∧
      strdup s = .ok (c.text ntop) := by
  have hshort := h.short c.seen.1 c.seen.2 c.length_seen
  have hroom : c.seen.1.addrStrLen ≤ 128 := by cases c.seen.1 <;> decide
  have hfits : 0 + (ntop c.seen.1 c.seen.2 ++ [0]).length ≤ ipStr.toList.length := by
    simp only [List.length_append, List.length_singleton, Vector.length_toList]
    omega
  have hnul : NulFree (ntop c.seen.1 c.seen.2) :=
    fun x hx => (h.graph c.seen.1 c.seen.2 c.length_seen x hx).1
  refine ⟨ntop c.seen.1 c.seen.2 ++ 0 ::
    ipStr.toList.drop (0 + (ntop c.seen.1 c.seen.2 ++ [0]).length), ?_, ?_⟩
  · rw [inetNtop, readBytes_sinAddr, ok_bind, if_pos hshort, memcpy, if_pos hfits]
    simp
  · rw [strdup, if_pos (by simp), cString_append_nul hnul]
    rfl

/-- `client_ip_str` gives the text. -/
theorem Documented.clientIpStr_eq (h : Documented ntop) (ipStr : Vector UInt8 128) (c : Sockaddr) :
    clientIpStr ntop ipStr (some (some c.bytes)) = .ok (some (c.text ntop)) := by
  obtain ⟨s, hs, hdup⟩ := h.print ipStr c
  simp only [clientIpStr, sinFamily_bytes, hs, ok_bind, hdup]
  rfl

/-- `uhd_client_connect` passes it on. -/
theorem Documented.uhdClientConnect_eq (h : Documented ntop) (ipStr : Vector UInt8 128)
    (addrCb : Bytes → Prog Rai Int) (c : Sockaddr) :
    uhdClientConnect ntop ipStr (some addrCb) (some c.bytes) = addrCb (c.text ntop) := by
  obtain ⟨s, hs, hdup⟩ := h.print ipStr c
  simp only [uhdClientConnect, sinFamily_bytes, hs, orDie_ok, Prog.done_bind, hdup]

end Webstore
