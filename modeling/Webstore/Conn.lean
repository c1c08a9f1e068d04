/-
  Webstore.Conn

  Connection limiting: `ws_addr_check` and the functions behind it.  A check
  reads the counter of an address with GET and writes it with SET or INCR, two
  commands on the shared context, in the RAI lock when there are threads and
  one check at a time when there are not.
-/
import Webstore.Node

namespace Webstore

open Webstore.Libc Webstore.Sched

def srIpAccept : Int := 1
def srIpDeny : Int := 0

/-- The key of an address's counter, `IPS:%s`. -/
def ipKey (ip : Bytes) : Bytes := ascii "IPS:" ++ cString ip

/-- The second command of a check: `SET IPS:%s 1 EX %d` if nothing was found,
    else `INCR IPS:%s`.  A period that is not positive Redis refuses like 0. -/
def saveCommand (ip : Bytes) (found : Bool) (reqperiod : Int) : Cmd :=
  if found = false then .set (ipKey ip) (ascii "1") (some reqperiod.toNat) false
  else .incr (ipKey ip)

/-- `save_ip`. -/
def saveIp (ip : Bytes) (found : Bool) (reqperiod : Int) : Prog Rai Unit := do
  match ← redisCommand (saveCommand ip found reqperiod) with
  | none => handleRedisError
  | some _ => pure ()

/-- `check_ip`. -/
def checkIp (lrt : Wsrt) (ip : Bytes) : Prog Rai Int := do
  match ← redisCommand (.get (ipKey ip)) with
  | none => do
      handleRedisError
      return 0
  | some .nil => do
      saveIp ip false lrt.reqperiod
      return 1
  -- a full counter is left as it is
  | some (.string str) =>
      let count := atoi (cString str)
      if count < lrt.reqcount then do
        saveIp ip true lrt.reqperiod
        return 1
      else return 0
  | some _ => return 0

/-- `allow_ip`. -/
def allowIp (lrt : Wsrt) (ip : Bytes) : Prog Rai Int := do
  if lrt.multithreaded then raiLock
  let retval ← checkIp lrt ip
  if lrt.multithreaded then raiUnlock
  return retval

def localhost : Bytes := ascii "127.0.0.1"

/-- `ws_addr_check`. -/
def wsAddrCheck (lrt : Wsrt) (incIp : Bytes) : Prog Rai Int := do
  if cString incIp = localhost then return srIpAccept
  let z ← allowIp lrt incIp
  if z = 0 then return srIpDeny
  return srIpAccept

/-- Connection checks at work; a request is the address it comes from. -/
@[reducible] def connMachine (P : Policy) (rt : Wsrt) :
    Machine Rai Server Bytes Int Env Outcome :=
  raiMachine P rt.multithreaded (wsAddrCheck rt)

end Webstore
