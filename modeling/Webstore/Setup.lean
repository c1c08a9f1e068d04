/-
  Webstore.Setup

  From the command line to the first request: the option tables of the four
  programs and what their `parse_args` make of them, the file helpers, the
  start of the server with its environment, and `ws_cfg`.  Files, environment,
  Redis and the socket are what the host says they are.
-/
import Webstore.Getopts
import Webstore.Session

namespace Webstore

open Webstore.Libc Webstore.Sched

/-- `EXIT_FAILURE`. -/
def exitFailure : Nat := 1

/-- Conversion to `unsigned short`. -/
def toUShort (n : Int) : UInt16 := UInt16.ofInt n

/-! ## Files -/

/-- What `stat`, `fopen` and `fread` find at a path. -/
inductive FileAt where
  | missing
  | statFails
  | irregular
  | regular (content : Bytes) (readable : Bool)

/-- `file_size`. -/
def fileSize : FileAt → Int
  | .missing => -1
  | .statFails => -2
  | .irregular => -3
  | .regular content _ => content.length

/-- `get_file`, without the NUL behind the data. -/
def getFile (f : FileAt) : Option Bytes :=
  if fileSize f ≤ 0 then none
  else
    match f with
    | .regular content true => some content
    | _ => none

/-! ## Loops over the options -/

/-- A line of a table of options. -/
def Opt.entry (number : Int) (name : String) (shortName : Option String) (args : Bool) : Opt :=
  ⟨number, some (ascii name), shortName.map ascii, args⟩

/-- The loop of a `parse_args` over its table; `switch` is the body.  The loop
    is given as many calls as there are words, and one more. -/
def scanArgs {σ : Type} (T : OptTable) (switch : σ → Int → Bytes → σ) (g : σ) (prog : Bytes)
    (words : List Bytes) : Except Fault (Option σ) := do
  let some p ← getoptsLoop (prog :: words) T.opts (words.length + 1) 1 | return none
  if p.usage then throw (.exit 0)
  -- NULL is given to no case that reads `args`
  return some (p.items.foldl (fun g item => switch g item.1 (item.2.getD [])) g)

/-! ## ws_post -/

/-- `opts` of `ws_post`. -/
def wsPostOpts : OptTable where
  opts := [
    .entry 1 "host" "H" true, .entry 2 "port" "P" true, .entry 3 "alg" "a" true,
    .entry 4 "file" "f" true, .entry 5 "msg" "m" true, .entry 6 "token" "t" true,
    .entry 7 "https" "s" false, .entry 8 "comp" "c" false, .entry 10 "quiet" "q" false,
    .entry 11 "verbose" "v" false]
  number := by decide
  named := by decide
  short := by decide
  names := by decide
  shortNames := by decide
  nonempty := by decide
  noHelp := by decide

/-- A command line with a message that begins with a dash. -/
theorem getopts_round_trip_post :
    getoptsLoop [ascii "ws_post", ascii "-H", ascii "localhost", ascii "--https", ascii "-m",
      ascii "-hello"] wsPostOpts.opts 6 1 =
      .ok (some ⟨[(1, some (ascii "localhost")), (7, none), (5, some (ascii "-hello"))], false⟩) :=
  @getopts_round_trip wsPostOpts (ascii "ws_post")
    [⟨.entry 1 "host" "H" true, false, some (ascii "localhost")⟩,
      ⟨.entry 7 "https" "s" false, true, none⟩,
      ⟨.entry 5 "msg" "m" true, false, some (ascii "-hello")⟩] (by
    simp only [List.forall_mem_cons]
    exact ⟨proper_value (by decide) (.inr rfl) rfl (plainValue_of_head (by decide) _),
      proper_flag (by decide) (.inl rfl) rfl,
      proper_value (by decide) (.inr rfl) rfl ⟨by decide, by decide⟩, nofun⟩)

/-- The globals of `ws_post`. -/
structure PostGlobals where
  host : Option Bytes
  port : UInt16
  alg : Int
  filename : Option Bytes
  message : Option Bytes
  token : Option Bytes
  verbosity : Int
  secure : Bool
  comp : Bool

def PostGlobals.start : PostGlobals := ⟨none, 0, 0, none, none, none, 1, false, false⟩

/-- The switch of `parse_args` in `ws_post`. -/
def wsPostSwitch (g : PostGlobals) (c : Int) (args : Bytes) : PostGlobals :=
  match c with
  | 1 => { g with host := some args }
  | 2 => { g with port := toUShort (atoi args) }
  | 3 => { g with alg := atoi args }
  | 4 => { g with filename := some args }
  | 5 => { g with message := some args }
  | 6 => { g with token := some args }
  | 7 => { g with secure := true }
  | 8 => { g with comp := true }
  | 10 => { g with verbosity := 0 }
  | 11 => { g with verbosity := 2 }
  | _ => g

/-- The checks of `parse_args` in `ws_post`: the options, and the verbosity. -/
def wsPostChecks (files : Bytes → FileAt) (g : PostGlobals) : Except Fault (PostArgs × Int) := do
  let some host := g.host | throw (.exit exitFailure)
  if g.port = 0 then throw (.exit exitFailure)
  if !tokenArgs g.token g.alg then throw (.exit exitFailure)
  if g.filename.isSome && g.message.isSome then throw (.exit exitFailure)
  if g.filename.isNone && g.message.isNone then throw (.exit exitFailure)
  let message ←
    match g.filename with
    | some filename => do
        if fileSize (files filename) ≤ 0 then throw (.exit exitFailure)
        let some message := getFile (files filename) | throw (.exit exitFailure)
        pure message
    | none => pure (g.message.getD [])
  if message.length < 1 then throw (.exit exitFailure)
  return (⟨host, g.port, g.alg, g.token, g.secure, g.comp, message⟩, g.verbosity)

/-- `parse_args` of `ws_post`. -/
def wsPostParseArgs (files : Bytes → FileAt) (prog : Bytes) (words : List Bytes) :
    Except Fault (Option (PostArgs × Int)) := do
  let some g ← scanArgs wsPostOpts wsPostSwitch .start prog words | return none
  return some (← wsPostChecks files g)

/-! ## ws_get -/

/-- `opts` of `ws_get`. -/
def wsGetOpts : OptTable where
  opts := [
    .entry 1 "host" "H" true, .entry 2 "port" "P" true, .entry 3 "token" "t" true,
    .entry 4 "file" "f" true, .entry 5 "https" "s" false]
  number := by decide
  named := by decide
  short := by decide
  names := by decide
  shortNames := by decide
  nonempty := by decide
  noHelp := by decide

/-- The globals of `ws_get`. -/
structure GetGlobals where
  host : Option Bytes
  port : UInt16
  token : Option Bytes
  filename : Option Bytes
  secure : Bool

def GetGlobals.start : GetGlobals := ⟨none, 0, none, none, false⟩

/-- The switch of `parse_args` in `ws_get`. -/
def wsGetSwitch (g : GetGlobals) (c : Int) (args : Bytes) : GetGlobals :=
  match c with
  | 1 => { g with host := some args }
  | 2 => { g with port := toUShort (atoi args) }
  | 3 => { g with token := some args }
  | 4 => { g with filename := some args }
  | 5 => { g with secure := true }
  | _ => g

/-- The checks of `parse_args` in `ws_get`. -/
def wsGetChecks (g : GetGlobals) : Except Fault GetArgs := do
  let some host := g.host | throw (.exit exitFailure)
  if g.port = 0 then throw (.exit exitFailure)
  let some token := g.token | throw (.exit exitFailure)
  return ⟨host, g.port, token, g.filename.isSome, g.secure⟩

/-- `parse_args` of `ws_get`. -/
def wsGetParseArgs (prog : Bytes) (words : List Bytes) : Except Fault (Option GetArgs) := do
  let some g ← scanArgs wsGetOpts wsGetSwitch .start prog words | return none
  return some (← wsGetChecks g)

/-! ## ws_cfg -/

/-- `opts` of `ws_cfg`. -/
def wsCfgOpts : OptTable where
  opts := [.entry 1 "host" "H" true, .entry 2 "port" "P" true, .entry 3 "https" "s" false]
  number := by decide
  named := by decide
  short := by decide
  names := by decide
  shortNames := by decide
  nonempty := by decide
  noHelp := by decide

/-- The globals of `ws_cfg`. -/
structure CfgGlobals where
  host : Option Bytes
  port : UInt16
  secure : Bool

def CfgGlobals.start : CfgGlobals := ⟨none, 0, false⟩

/-- The switch of `parse_args` in `ws_cfg`. -/
def wsCfgSwitch (g : CfgGlobals) (c : Int) (args : Bytes) : CfgGlobals :=
  match c with
  | 1 => { g with host := some args }
  | 2 => { g with port := toUShort (atoi args) }
  | 3 => { g with secure := true }
  | _ => g

/-- The options of `ws_cfg` as `parse_args` leaves them. -/
structure CfgArgs where
  host : Bytes
  port : UInt16
  secure : Bool

/-- The checks of `parse_args` in `ws_cfg`. -/
def wsCfgChecks (g : CfgGlobals) : Except Fault CfgArgs := do
  let some host := g.host | throw (.exit exitFailure)
  if g.port = 0 then throw (.exit exitFailure)
  return ⟨host, g.port, g.secure⟩

/-- `parse_args` of `ws_cfg`. -/
def wsCfgParseArgs (prog : Bytes) (words : List Bytes) : Except Fault (Option CfgArgs) := do
  let some g ← scanArgs wsCfgOpts wsCfgSwitch .start prog words | return none
  return some (← wsCfgChecks g)

/-- `create_url` of `ws_cfg`. -/
def cfgUrl (host : Bytes) (port : UInt16) (secure : Bool) : Bytes :=
  snprintf urlSize (urlOrigin host port secure ++ ascii "/config/all")

/-- `main` of `ws_cfg` after `parse_args`: the exit code and what is printed.  A
    response without a body has no page to print. -/
def wsCfgMain (g : CfgArgs) (perform : Bytes → CurlEnd) : Except Fault (Int × Option Bytes) := do
  let (z, httpCode, resp) ← wsCurl (perform (cfgUrl g.host g.port g.secure))
  if z ≠ 0 then return (1, none)
  else if httpCode ≠ 200 then return (1, none)
  else
    match resp.page with
    | some page => return (0, some (cString page))
    | none => throw .outOfBounds

/-- `main` of `ws_cfg`; `none` is no end in sight. -/
def wsCfg (prog : Bytes) (words : List Bytes) (perform : Bytes → CurlEnd) :
    Except Fault (Option (Int × Option Bytes)) := do
  let some g ← wsCfgParseArgs prog words | return none
  return some (← wsCfgMain g perform)

/-! ## webstore -/

/-- `opts` of `webstore`. -/
def webstoreOpts : OptTable where
  opts := [
    .entry 1 "ip" "I" true, .entry 2 "port" "P" true, .entry 3 "tpc" "t" false,
    .entry 4 "log" "l" true, .entry 5 "rsock" none true, .entry 6 "rtcp" none true,
    .entry 7 "cert" none true, .entry 8 "key" none true, .entry 9 "dsize" none true]
  number := by decide
  named := by decide
  short := by decide
  names := by decide
  shortNames := by decide
  nonempty := by decide
  noHelp := by decide

/-- `g_so`, without the fields `main` fills, and the other globals. -/
structure SrvOpts where
  httpIp : Option Bytes
  httpPort : UInt16
  useThreads : Bool
  maxPostDataSize : Int
  certfile : Option Bytes
  keyfile : Option Bytes
  logfile : Option Bytes
  rsock : Option Bytes
  rip : Option Bytes
  rport : UInt16

def SrvOpts.start : SrvOpts :=
  ⟨none, 0, false, 20 * 1024 * 1024, none, none, none, none, none, 0⟩

/-- `:`. -/
def colon : UInt8 := 58

/-- The switch of `parse_args` in `webstore`. -/
def webstoreSwitch (g : SrvOpts) (c : Int) (args : Bytes) : SrvOpts :=
  match c with
  | 1 => { g with httpIp := some args }
  | 2 => { g with httpPort := toUShort (atoi args) }
  | 3 => { g with useThreads := true }
  | 4 => { g with logfile := some args }
  | 5 => { g with rsock := some args }
  | 6 =>
      if colon ∈ args then
        { g with
          rip := some (args.takeWhile (· ≠ colon))
          rport := toUShort (atoi ((args.dropWhile (· ≠ colon)).drop 1)) }
      else g
  | 7 => { g with certfile := some args }
  | 8 => { g with keyfile := some args }
  | 9 => { g with maxPostDataSize := atol args }
  | _ => g

/-- The checks of `parse_args` in `webstore`. -/
def webstoreChecks (g : SrvOpts) : Except Fault Unit := do
  if g.rsock.isNone && g.rip.isNone then throw (.exit exitFailure)
  if g.rip.isSome && g.rport = 0 then throw (.exit exitFailure)
  if g.httpPort = 0 then throw (.exit exitFailure)
  if g.certfile.isSome && g.keyfile.isNone then throw (.exit exitFailure)
  if g.certfile.isNone && g.keyfile.isSome then throw (.exit exitFailure)
  if g.maxPostDataSize < 6 then throw (.exit exitFailure)

/-- `parse_args` of `webstore`. -/
def webstoreParseArgs (prog : Bytes) (words : List Bytes) : Except Fault (Option SrvOpts) := do
  let some g ← scanArgs webstoreOpts webstoreSwitch .start prog words | return none
  webstoreChecks g
  return some g

/-- What a program finds on the machine it runs on: its environment, the files,
    what `pthread_mutex_init` returns, a Redis context with or without an error
    or none at all, and whether a log file and a socket can be opened. -/
structure Host where
  getenv : Bytes → Option Bytes
  files : Bytes → FileAt
  mutexInit : Int
  redisConnect : Bytes → UInt16 → Option Bool
  redisConnectUnix : Bytes → Option Bool
  opensLog : Bytes → Bool
  binds : Option Bytes → UInt16 → Bool

/-- `rai_connect` on a zeroed `rai_t`. -/
def raiConnect (host : Host) (dest : Bytes) (port : UInt16) : Int :=
  if host.mutexInit ≠ 0 then -2
  else
    match if port ≠ 0 then host.redisConnect dest port else host.redisConnectUnix dest with
    | none => -3
    | some true => -4
    | some false => 0

/-- The runtime data that `webstore_start` hands to the nodes. -/
def runtimeData (getenv : Bytes → Option Bytes) (so : SrvOpts) : Wsrt where
  multithreaded := so.useThreads
  reqperiod := ((getenv (ascii "REQPERIOD")).map atoi).getD 0
  reqcount := ((getenv (ascii "REQCOUNT")).map atol).getD 0
  maxPostDataSize := so.maxPostDataSize
  -- what is negative becomes 0
  expiration := (((getenv (ascii "EXPIRATION")).map atol).getD 0).toNat
  immutable := (getenv (ascii "IMMUTABLE")).isSome
  bar := (getenv (ascii "BAR")).isSome

/-- A server that has been started: where it listens, where its Redis is, its
    certificate and key, and its runtime data. -/
structure Serving where
  ip : Option Bytes
  port : UInt16
  redis : Bytes × UInt16
  https : Option (Bytes × Bytes)
  rt : Wsrt

/-- `activate_https`. -/
def activateHttps (host : Host) (certfile keyfile : Bytes) : Except Fault (Bytes × Bytes) := do
  let some cert := getFile (host.files certfile) | throw (.exit exitFailure)
  let some key := getFile (host.files keyfile) | throw (.exit exitFailure)
  return (cString cert, cString key)

/-- `Configure HTTPS` in `webstore_start`. -/
def configureHttps (host : Host) (so : SrvOpts) : Except Fault (Option (Bytes × Bytes)) :=
  match so.certfile, so.keyfile with
  | some certfile, some keyfile => do return some (← activateHttps host certfile keyfile)
  | _, _ => return none

/-- `webstore_start`, as far as it is about the options. -/
def webstoreServe (host : Host) (so : SrvOpts) (rdest : Bytes) (rport : UInt16) :
    Except Fault Serving := do
  if raiConnect host rdest rport ≠ 0 then throw (.exit exitFailure)
  let https ← configureHttps host so
  if !host.binds so.httpIp so.httpPort then throw (.exit exitFailure)
  return ⟨so.httpIp, so.httpPort, (rdest, rport), https, runtimeData host.getenv so⟩

/-- The call of `log_open` in `main` of `webstore`. -/
def openLog (host : Host) (g : SrvOpts) : Except Fault Unit :=
  match g.logfile with
  | some logfile => if host.opensLog logfile then return () else throw (.exit exitFailure)
  | none => return ()

/-- `main` of `webstore` until it waits for signals. -/
def webstoreMain (host : Host) (prog : Bytes) (words : List Bytes) :
    Except Fault (Option Serving) := do
  let some g ← webstoreParseArgs prog words | return none
  openLog host g
  match g.rsock with
  | some rsock => return some (← webstoreServe host g rsock 0)
  | none =>
      match g.rip with
      | some rip =>
          if 0 < g.rport then return some (← webstoreServe host g rip g.rport)
          else throw (.exit exitFailure)
      | none => throw (.exit exitFailure)

end Webstore
