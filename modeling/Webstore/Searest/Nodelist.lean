/-
  Webstore.Searest.Nodelist

  The list of nodes as it lies in memory: `searest_nodelist.c` with its
  pointers, and `process_request` on top of it.  A pointer to a node is the
  node's place in the heap, NULL is `none`; nodes are allocated one after the
  other and stay where they are.  `none` as the outcome of a call means that
  the process dies, or that the call never comes back.  The fields and the
  calls of a build with SRNODECHRONOMETRY are there throughout; `chronometry`
  says whether `process_request` uses them.  Left out are the mutex of the
  list (one call at a time is made), `last_atime` and `acount`, which nothing
  reads, and the user data of the server, which is the same for every call.
-/
import Webstore.Chain
import Webstore.Searest

namespace Webstore

open Webstore.Libc Webstore.Sched

namespace Nodelist

/-- `TIMESLOTS`. -/
def timeslots : Nat := 100

/-- `srn_t`. -/
structure Srn (Cb Nud : Type) where
  num : UInt32
  disabled : Bool
  root : Bytes
  cb : Cb
  nud : Nud
  dai : Int
  da : Vector Int timeslots
  statsready : Bool
  next : Option Nat
  prev : Option Nat

/-- `sri_t`, as far as the list goes, and the heap. -/
structure Sri (Cb Nud : Type) where
  nodelistHead : Option Nat
  heap : List (Srn Cb Nud)

/-- A fresh instance. -/
def Sri.fresh {Cb Nud : Type} : Sri Cb Nud := ⟨none, []⟩

variable {Cb Nud : Type}

/-! ## The list -/

/-- `searest_node_find`. -/
def searestNodeFind (ws : Sri Cb Nud) (rootname : Bytes) : Option (Option Nat) :=
  let body (_ : Unit) (cursor : Nat) (n : Srn Cb Nud) : Unit ⊕ Nat :=
    if strncmpEq rootname n.root n.root.length then .inr cursor else .inl ()
  (Chain.scan Srn.next ws.heap body ws.heap.length ws.nodelistHead ()).map Sum.getRight?

/-- `searest_node_len`. -/
def searestNodeLen (n : Srn Cb Nud) : Nat := n.root.length

/-- `searest_node_count`: the number of the last node. -/
def searestNodeCount (ws : Sri Cb Nud) : Option UInt32 :=
  let body (_ : UInt32) (_ : Nat) (n : Srn Cb Nud) : UInt32 ⊕ Empty := .inl n.num
  (Chain.scan Srn.next ws.heap body ws.heap.length ws.nodelistHead 0).map fun
    | .inl retval => retval
    | .inr e => nomatch e

/-- What `calloc` and the assignments behind it make of a node. -/
def newNode (num : UInt32) (rootname : Bytes) (func : Cb) (nodeUserData : Nud)
    (prev : Option Nat) : Srn Cb Nud where
  num := num
  disabled := false
  root := cString rootname
  cb := func
  nud := nodeUserData
  dai := 0
  da := Vector.replicate timeslots 0
  statsready := false
  next := none
  prev := prev

/-- `searest_node_add`. -/
def searestNodeAdd (ws : Sri Cb Nud) (rootname : Option Bytes) (func : Option Cb)
    (nodeUserData : Nud) : Option (Int × Sri Cb Nud) :=
  match rootname, func with
  | none, _ => some (1, ws)
  | some _, none => some (2, ws)
  | some rootname, some func =>
      match ws.nodelistHead with
      | none =>
          let n := newNode 1 rootname func nodeUserData none
          some (0, ⟨some ws.heap.length, ws.heap ++ [n]⟩)
      | some cursor => do
          let cursor ← Chain.last Srn.next ws.heap ws.heap.length cursor
          let last ← ws.heap[cursor]?
          let n := newNode (last.num + 1) rootname func nodeUserData (some cursor)
          let heap := ws.heap.set cursor { last with next := some ws.heap.length }
          return (0, { ws with heap := heap ++ [n] })

/-- `n->disabled = disabled` for the node that is found under a name. -/
def setDisabled (disabled : Bool) (ws : Sri Cb Nud) (rootname : Bytes) :
    Option (Int × Sri Cb Nud) := do
  match ← searestNodeFind ws rootname with
  | none => return (1, ws)
  | some n => return (0, { ws with heap := ws.heap.modify n fun n => { n with disabled } })

/-- `searest_node_set_disabled`. -/
def searestNodeSetDisabled (ws : Sri Cb Nud) (rootname : Bytes) : Option (Int × Sri Cb Nud) :=
  setDisabled true ws rootname

/-- `searest_node_set_enabled`. -/
def searestNodeSetEnabled (ws : Sri Cb Nud) (rootname : Bytes) : Option (Int × Sri Cb Nud) :=
  setDisabled false ws rootname

/-! ## Timing -/

/-- The slot that the next duration goes to: `dai % TIMESLOTS`. -/
def Srn.slot (n : Srn Cb Nud) : Int := n.dai.tmod timeslots

/-- `searest_node_save_time`. -/
def searestNodeSaveTime (n : Srn Cb Nud) (duration : Int) : Except Fault (Srn Cb Nud) :=
  let dai := toInt (n.dai + 1)
  if h : 0 ≤ n.slot ∧ n.slot < timeslots then
    .ok { n with
      dai
      da := n.da.set n.slot.toNat duration (by omega)
      statsready := n.statsready || (1 < dai && n.slot == 0) }
  else .error .outOfBounds

/-- `searest_node_get_avg_duration`; the total is an unsigned long. -/
def searestNodeGetAvgDuration (ws : Sri Cb Nud) (rootname : Bytes) : Option Int := do
  match ← searestNodeFind ws rootname with
  | none => return -1
  | some n =>
      let n ← ws.heap[n]?
      let total :=
        if n.statsready then n.da.foldl (fun total d => (total + toSizeT d) % 2 ^ 64) 0 else 0
      return ((total / timeslots : Nat) : Int)

/-! ## Requests -/

/-- A call of a node's callback. -/
structure Invocation (Cb Nud : Type) where
  cb : Cb
  url : Bytes
  urllen : Int
  ri : Srci
  nud : Nud

/-- What `process_request` does besides reading and writing the list. -/
inductive NodeOp (Cb Nud : Type) where
  | call (c : Invocation Cb Nud)
  | chronStop
  | die

/-- A callback gives back the page and what it made of the request, a stopped
    watch the duration. -/
@[reducible] def NodeOp.Ret : NodeOp Cb Nud → Type
  | .call _ => Option Bytes × Srci
  | .chronStop => Int
  | .die => Empty

@[reducible] def NodeSig (Cb Nud : Type) : Sig := ⟨NodeOp Cb Nud, NodeOp.Ret⟩

/-- Go on with a value if there is one. -/
def orDie {α : Type} : Option α → Prog (NodeSig Cb Nud) α
  | some a => .done a
  | none => .op (S := NodeSig Cb Nud) .die fun e => nomatch e

/-- `searest_node_save_time` on a node of the list. -/
def saveTime (ws : Sri Cb Nud) (p : Nat) (duration : Int) : Option (Sri Cb Nud) := do
  let n ← ws.heap[p]?
  let n ← (searestNodeSaveTime n duration).toOption
  return { ws with heap := ws.heap.set p n }

/-- `process_request`. -/
def processRequest (chronometry : Bool) (ws : Sri Cb Nud) (ri : Srci) :
    Prog (NodeSig Cb Nud) ((Option Bytes × Srci) × Sri Cb Nud) := do
  match ← orDie (searestNodeFind ws ri.url) with
  | none =>
      return ((some (ascii "node not found"),
        { ri with
          returnCode := httpNotFound
          returnPage := some (ascii "node not found") }), ws)
  | some p => do
      let n ← orDie ws.heap[p]?
      if n.disabled then
        return ((some (ascii "node not enabled"),
          { ri with
            returnCode := httpServiceUnavailable
            returnPage := some (ascii "node not enabled") }), ws)
      else do
        let nlen := searestNodeLen n
        -- the length goes through `size_t` on its way to the `int` of the callback
        let urllen := toInt ((toSizeT ri.urllen : Int) - nlen)
        let (page, ri) ←
          Prog.perform (S := NodeSig Cb Nud) (.call ⟨n.cb, ri.url.drop nlen, urllen, ri, n.nud⟩)
        let ws ←
          if chronometry then do
            let duration ← Prog.perform (S := NodeSig Cb Nud) .chronStop
            orDie (saveTime ws p duration)
          else pure ws
        return ((page, { ri with returnPage := page }), ws)

/-! ## Calls in turn -/

/-- A call on an instance. -/
inductive ListCall (Cb Nud : Type) where
  | add (rootname : Option Bytes) (func : Option Cb) (nodeUserData : Nud)
  | setDisabled (rootname : Bytes)
  | setEnabled (rootname : Bytes)

/-- What a call returns and what it leaves behind. -/
def ListCall.exec (ws : Sri Cb Nud) : ListCall Cb Nud → Option (Int × Sri Cb Nud)
  | .add rootname func nud => searestNodeAdd ws rootname func nud
  | .setDisabled rootname => searestNodeSetDisabled ws rootname
  | .setEnabled rootname => searestNodeSetEnabled ws rootname

/-- One call after the other. -/
def runCalls (ws : Sri Cb Nud) : List (ListCall Cb Nud) → Option (Sri Cb Nud)
  | [] => some ws
  | c :: cs => (c.exec ws).bind fun r => runCalls r.2 cs

end Nodelist

end Webstore
