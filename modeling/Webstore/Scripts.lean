/-
  Webstore.Scripts

  The scripts that start the programs in their containers.  Settings come in
  as environment variables and go out as the words of a command line.  A
  variable that is not quoted is cut into words at blanks, and words with
  pattern characters are replaced by the file names `glob` finds for them.
-/
import Webstore.Setup

namespace Webstore

open Webstore.Libc

/-! ## The shell -/

/-- `$IFS` as a shell starts with it. -/
def isIfs (c : UInt8) : Bool := c == 32 || c == 9 || c == 10

/-- What makes a word a pattern. -/
def isPattern (c : UInt8) : Bool := c == 42 || c == 63 || c == 91

/-- A part of a word of a script: text, plain or quoted, or the value of a
    variable without quotes. -/
inductive WordPart where
  | text (s : Bytes)
  | value (v : Bytes)

def WordPart.isValue : WordPart → Bool
  | .text _ => false
  | .value _ => true

/-- Cut a value at blanks, behind what there is of a field: the fields that are
    complete, and what there is of the next. -/
def splitValue (field : Option Bytes) : Bytes → List Bytes × Option Bytes
  | [] => ([], field)
  | c :: v =>
      if isIfs c then
        let r := splitValue none v
        (field.toList ++ r.1, r.2)
      else splitValue (some (field.getD [] ++ [c])) v

/-- The fields of a word. -/
def splitWord (field : Option Bytes) : List WordPart → List Bytes
  | [] => field.toList
  | .text s :: parts => splitWord (some (field.getD [] ++ s)) parts
  | .value v :: parts =>
      let r := splitValue field v
      r.1 ++ splitWord r.2 parts

/-- What a word of a script comes to. -/
def expandWord (glob : Bytes → List Bytes) (parts : List WordPart) : List Bytes :=
  (splitWord none parts).flatMap fun field =>
    if parts.any WordPart.isValue && field.any isPattern then glob field else [field]

/-- `${name}`. -/
def shellVar (getenv : Bytes → Option Bytes) (name : String) : Bytes :=
  (getenv (ascii name)).getD []

/-- `${name:-value}`. -/
def shellDefault (getenv : Bytes → Option Bytes) (name value : String) : Bytes :=
  if shellVar getenv name = [] then ascii value else shellVar getenv name

/-! ## The clients -/

/-- `SECURE`. -/
def secureArg (getenv : Bytes → Option Bytes) : Bytes :=
  let https := shellVar getenv "HTTPS"
  if https = [] then []
  else if https = ascii "0" then []
  else if https = ascii "false" then []
  else if https = ascii "FALSE" then []
  else ascii "-s"

/-- `app.wspost.sh`: the words it starts `ws_post` with. -/
def wspostScript (getenv : Bytes → Option Bytes) (glob : Bytes → List Bytes) :
    Except Fault (List Bytes) := do
  let wshost := shellVar getenv "WSHOST"
  let wsport := shellVar getenv "WSPORT"
  let alg := shellVar getenv "ALG"
  let msg := shellVar getenv "MSG"
  if wshost = [] then throw (.exit 1)
  if wsport = [] then throw (.exit 1)
  if alg = [] then throw (.exit 1)
  if msg = [] then throw (.exit 1)
  return [
    [.value (secureArg getenv)], [.text (ascii "-H")], [.value wshost], [.text (ascii "-P")],
    [.value wsport], [.text (ascii "-a")], [.value alg], [.text (ascii "-m")],
    [.text msg]].flatMap (expandWord glob)

/-- `app.wsget.sh`: the words it starts `ws_get` with. -/
def wsgetScript (getenv : Bytes → Option Bytes) (glob : Bytes → List Bytes) :
    Except Fault (List Bytes) := do
  let wshost := shellVar getenv "WSHOST"
  let wsport := shellVar getenv "WSPORT"
  let token := shellVar getenv "TOKEN"
  if wshost = [] then throw (.exit 1)
  if wsport = [] then throw (.exit 1)
  if token = [] then throw (.exit 1)
  return [
    [.value (secureArg getenv)], [.text (ascii "-H")], [.value wshost], [.text (ascii "-P")],
    [.value wsport], [.text (ascii "-t")], [.value token]].flatMap (expandWord glob)

/-! ## The server -/

/-- `CERTPATH` and `KEYPATH`, if both files are named. -/
def httpsPaths (getenv : Bytes → Option Bytes) : Option (Bytes × Bytes) :=
  let certfile := shellVar getenv "CERTFILE"
  let keyfile := shellVar getenv "KEYFILE"
  if certfile ≠ [] ∧ keyfile ≠ [] then some (ascii "/cert/" ++ certfile, ascii "/cert/" ++ keyfile)
  else none

/-- `CERTARG` and `KEYARG`; `readable` is the test `-r`. -/
def httpsArgs (getenv : Bytes → Option Bytes) (readable : Bytes → Bool) :
    Except Fault (Bytes × Bytes) :=
  match httpsPaths getenv with
  | some (certpath, keypath) =>
      if !readable certpath then throw (.exit 1)
      else if !readable keypath then throw (.exit 1)
      else return (ascii "--cert " ++ certpath, ascii "--key " ++ keypath)
  | none => return ([], [])

/-- `app.webstore.sh`: the words it starts `webstore` with. -/
def webstoreScript (getenv : Bytes → Option Bytes) (glob : Bytes → List Bytes)
    (readable : Bytes → Bool) : Except Fault (List Bytes) := do
  let httpport := shellDefault getenv "HTTPPORT" "8080"
  let redisip := shellDefault getenv "REDISIP" "127.0.0.1"
  let redisport := shellDefault getenv "REDISPORT" "6379"
  let mtarg := if shellVar getenv "MULTITHREAD" ≠ [] then ascii "-t" else []
  let (certarg, keyarg) ← httpsArgs getenv readable
  let maxpostsize := shellVar getenv "MAXPOSTSIZE"
  let dsizearg := if maxpostsize ≠ [] then ascii "--dsize " ++ maxpostsize else []
  return [
    [.text (ascii "-P")], [.value httpport], [.text (ascii "--rtcp")],
    [.value redisip, .text (ascii ":"), .value redisport], [.text (ascii "-l")],
    [.text (ascii "/log/webstore.log")], [.value mtarg], [.value certarg], [.value keyarg],
    [.value dsizearg]].flatMap (expandWord glob)

end Webstore
