/-
  Webstore.Searest.Linked

  The instance of `Webstore.Searest` keeps its nodes in a plain list and runs
  the callbacks itself.  That is what the list in memory comes to: both grow
  by the same nodes, and a request is processed in the same way.
-/
import Webstore.Searest.Dispatch
import Webstore.Searest.Nodes
import Webstore.Uhd

namespace Webstore.Nodelist

open Webstore.Libc Webstore.Sched

variable {Nud : Type}

/-- A node without its links. -/
def Srn.plain (n : Srn NodeCallback Nud) : Webstore.Srn := ⟨n.num, n.disabled, n.root, n.cb⟩

/-- The instance has the nodes of the list in memory. -/
def Same (ws : Sri NodeCallback Nud) (s : Webstore.Sri) : Prop :=
  s.nodelist = ws.heap.map Srn.plain

/-- A program with the callbacks run in place, and every watch showing the
    same duration. -/
def inline {α : Type} (duration : Int) : Prog (NodeSig NodeCallback Nud) α → Prog Rai α
  | .done a => .done a
  | .lock p => .lock (inline duration p)
  | .unlock p => .unlock (inline duration p)
  | .op (.call c) k => c.cb c.url c.urllen c.ri >>= fun r => inline duration (k r)
  | .op .chronStop k => inline duration (k duration)
  | .op .die _ => .op (S := Rai) (.fault .outOfBounds) fun e => nomatch e

variable {ws : Sri NodeCallback Nud} {t : List (Entry NodeCallback Nud)} {s : Webstore.Sri}

/-- A row with a number. -/
def Entry.plain (num : UInt32) (e : Entry NodeCallback Nud) : Webstore.Srn :=
  ⟨num, e.disabled, e.root, e.cb⟩

/-- The table and the places in it are all there is to the nodes. -/
theorem Represents.plain (h : Represents ws t) :
    ws.heap.map Srn.plain =
      List.zipWith Entry.plain ((List.range t.length).map fun i => UInt32.ofNat (i + 1)) t := by
  have hlen : t.length = ws.heap.length := by rw [← h.rows, List.length_map]
  rw [hlen, ← h.nums, ← h.rows, List.zipWith_map, List.zipWith_self]
  rfl

/-- `searest_node_add` does the same to both. -/
theorem Same.add (hs : Same ws s) (h : Represents ws t) (rootname : Bytes) (func : NodeCallback)
    (nud : Nud) :
    ∃ ws', searestNodeAdd ws (some rootname) (some func) nud = some (0, ws') ∧
      Represents ws' (t ++ [⟨⟨cString rootname, func, nud⟩, false⟩]) ∧
      Same ws' (Webstore.searestNodeAdd s rootname func) := by
  obtain ⟨ws', hadd, h'⟩ := h.add rootname func nud
  refine ⟨ws', hadd, h', ?_⟩
  have hnodes : s.nodelist = List.zipWith Entry.plain
      ((List.range t.length).map fun i => UInt32.ofNat (i + 1)) t := hs.trans h.plain
  -- the number of the last node is the length of the list
  have hplain : (Webstore.searestNodeAdd s rootname func).nodelist =
      s.nodelist ++ [⟨UInt32.ofNat (t.length + 1), false, cString rootname, func⟩] := by
    rcases List.eq_nil_or_concat' t with rfl | ⟨past, e, rfl⟩
    · have hlast : s.nodelist.getLast? = none := by
        rw [hnodes]
        rfl
      simp only [Webstore.searestNodeAdd, hlast]
      rfl
    · have hlast : s.nodelist.getLast? = some (Entry.plain (UInt32.ofNat (past.length + 1)) e) := by
        rw [hnodes, List.length_append, List.length_singleton, List.range_succ, List.map_append,
          List.zipWith_append (by simp)]
        simp
      simp only [Webstore.searestNodeAdd, hlast, List.length_append, List.length_singleton,
        UInt32.ofNat_add]
      rfl
  rw [Same, hplain, h'.plain, hnodes, List.length_append, List.length_singleton, List.range_succ,
    List.map_append, List.zipWith_append (by simp)]
  rfl

/-- The node that is found. -/
theorem Same.find (hs : Same ws s) (h : Represents ws t) (url : Bytes) :
    Webstore.searestNodeFind s url =
      ((ws.heap.findIdx? fun n => decide (n.root <+: cString url)).bind (ws.heap[·]?)).map
        Srn.plain := by
  have hsame : ∀ n ∈ ws.heap, strncmpEq url (Srn.plain n).root (Srn.plain n).root.length =
      decide (n.root <+: cString url) := fun n hn => strncmpEq_root (h.nulFree n hn) url
  unfold Webstore.searestNodeFind
  rw [hs, List.find?_map, ← List.find?_eq_bind_findIdx?_getElem?]
  exact congrArg _ (List.find?_congr hsame)

/-- A request saves the time of one node. -/
theorem Same.saveTime (hs : Same ws s) (h : Represents ws t) {p : Nat} {n : Srn NodeCallback Nud}
    (hload : ws.heap[p]? = some n) (duration : Int) :
    ∃ ws', Nodelist.saveTime ws p duration = some ws' ∧ Same ws' s := by
  have hslot : 0 ≤ n.slot ∧ n.slot < timeslots := by
    rw [Srn.slot, h.idle n (List.mem_of_getElem? hload)]
    decide
  let n' : Srn NodeCallback Nud := { n with
    dai := toInt (n.dai + 1)
    da := n.da.set n.slot.toNat duration (by omega)
    statsready := n.statsready || (1 < toInt (n.dai + 1) && n.slot == 0) }
  refine ⟨{ ws with heap := ws.heap.set p n' }, ?_, ?_⟩
  · simp only [Nodelist.saveTime, searestNodeSaveTime, hload, dif_pos hslot, Option.bind_eq_bind,
      Option.bind_some]
    rfl
  · rw [Same, hs, map_set_same hload (rfl : n'.plain = n.plain)]

/-- `process_request` answers the same, and changes no node but for its
    times. -/
theorem Same.processRequest (hs : Same ws s) (h : Represents ws t) (chronometry : Bool)
    (duration : Int) (ri : Srci) :
    ∃ ws', Same ws' s ∧
      inline duration (Nodelist.processRequest chronometry ws ri) =
        (Webstore.processRequest s ri >>= fun r => .done (r, ws')) := by
  -- the walk over the list and the search in the table come to the same node
  cases hp : ws.heap.findIdx? fun n => decide (n.root <+: cString ri.url) with
  | none =>
      have hfind : searestNodeFind ws ri.url = some none := by rw [h.find, hp]
      have hplain : Webstore.searestNodeFind s ri.url = none := by
        rw [hs.find h, hp]
        rfl
      refine ⟨ws, hs, ?_⟩
      rw [processRequest_missing hfind, processRequest_none hplain]
      rfl
  | some p =>
      obtain ⟨hlt, -⟩ := List.findIdx?_eq_some_iff_getElem.mp hp
      obtain ⟨n, hload⟩ : ∃ n, ws.heap[p]? = some n := ⟨_, List.getElem?_eq_getElem hlt⟩
      have hfind : searestNodeFind ws ri.url = some (some p) := by rw [h.find, hp]
      have hplain : Webstore.searestNodeFind s ri.url = some n.plain := by
        rw [hs.find h, hp, Option.bind_some, hload, Option.map_some]
      cases hn : n.disabled with
      | true =>
          refine ⟨ws, hs, ?_⟩
          rw [processRequest_disabled hfind hload hn, Webstore.processRequest, hplain]
          simp only [Srn.plain, hn, if_true]
          rfl
      | false =>
          obtain ⟨ws', hsave, hsame⟩ := hs.saveTime h hload duration
          rw [processRequest_found hplain hn]
          simp only [Nodelist.processRequest, hfind, hload, orDie, Prog.done_bind, hn,
            Bool.false_eq_true, if_false, searestNodeLen]
          cases chronometry with
          | false =>
              refine ⟨ws, hs, ?_⟩
              rw [Prog.bind_assoc]
              rfl
          | true =>
              refine ⟨ws', hsame, ?_⟩
              have hrest : ∀ r : Option Bytes × Srci,
                  inline duration ((orDie (Nodelist.saveTime ws p duration) :
                    Prog (NodeSig NodeCallback Nud) _) >>= fun ws =>
                      .done ((r.1, { r.2 with returnPage := r.1 }), ws)) =
                    .done ((r.1, { r.2 with returnPage := r.1 }), ws') := by
                intro r
                rw [hsave]
                rfl
              rw [Prog.bind_assoc]
              exact congrArg _ (funext hrest)

/-! ## The server -/

/-- The nodes that `webstore_start` adds. -/
def startNodes (rt : Wsrt) : List (Bytes × NodeCallback) :=
  [(ascii "/config/", nodeCallback nodecfg rt), (ascii "/store/128/", nodeCallback node128 rt),
    (ascii "/store/160/", nodeCallback node160 rt), (ascii "/store/224/", nodeCallback node224 rt),
    (ascii "/store/256/", nodeCallback node256 rt), (ascii "/store/384/", nodeCallback node384 rt),
    (ascii "/store/512/", nodeCallback node512 rt)]

/-- Adding some nodes, with user data that is NULL. -/
def adds (nodes : List (Bytes × NodeCallback)) : List (ListCall NodeCallback Unit) :=
  nodes.map fun n => .add (some n.1) (some n.2) ()

/-- Nodes are added to the list in memory and to the table alike. -/
theorem Same.adds {ws : Sri NodeCallback Unit} {t : List (Entry NodeCallback Unit)}
    (hs : Same ws s) (h : Represents ws t) (nodes : List (Bytes × NodeCallback)) :
    ∃ ws' t', runCalls ws (Nodelist.adds nodes) = some ws' ∧ Represents ws' t' ∧
      Same ws' (nodes.foldl (fun s n => Webstore.searestNodeAdd s n.1 n.2) s) := by
  induction nodes generalizing ws t s with
  | nil => exact ⟨ws, t, rfl, h, hs⟩
  | cons n nodes ih =>
      obtain ⟨ws₁, hadd, h₁, hs₁⟩ := hs.add h n.1 n.2 ()
      obtain ⟨ws₂, t₂, hrun, h₂, hs₂⟩ := ih hs₁ h₁
      refine ⟨ws₂, t₂, ?_, h₂, hs₂⟩
      rw [Nodelist.adds, List.map_cons, runCalls, ListCall.exec, hadd, Option.bind_some]
      exact hrun

/-- The server has the nodes of the list that `webstore_start` leaves in
    memory. -/
theorem exists_webstoreStart (rt : Wsrt) :
    ∃ ws t, runCalls Sri.fresh (adds (startNodes rt)) = some ws ∧ Represents ws t ∧
      Same ws (webstoreStart rt) := by
  have hnew : Same (Sri.fresh : Sri NodeCallback Unit)
      (searestNew (8 + 3) (128 + 11) (toSizeT rt.maxPostDataSize)) := rfl
  exact hnew.adds .fresh (startNodes rt)

end Webstore.Nodelist
