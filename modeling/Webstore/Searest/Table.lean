/-
  Webstore.Searest.Table

  The list of nodes as a table: the registrations in their order, each with a
  flag that says whether the node is disabled.  After any calls on a fresh
  instance the linked list in memory is the table, and the loops over it are
  searches in the table.
-/
import Mathlib.Data.List.Find
import Webstore.Lists
import Webstore.Route
import Webstore.Searest.Nodelist

namespace Webstore.Nodelist

open Webstore.Libc

/-! ## The table -/

/-- What a node is registered with. -/
structure Registration (Cb Nud : Type) where
  root : Bytes
  cb : Cb
  nud : Nud

/-- A row of the table. -/
structure Entry (Cb Nud : Type) extends Registration Cb Nud where
  disabled : Bool

variable {Cb Nud : Type}

def Srn.entry (n : Srn Cb Nud) : Entry Cb Nud := ⟨⟨n.root, n.cb, n.nud⟩, n.disabled⟩

/-- What a call registers. -/
def ListCall.registers : ListCall Cb Nud → Option (Registration Cb Nud)
  | .add (some rootname) (some func) nud => some ⟨cString rootname, func, nud⟩
  | _ => none

/-- The registrations in their order. -/
def registered (calls : List (ListCall Cb Nud)) : List (Registration Cb Nud) :=
  calls.filterMap ListCall.registers

/-- The flag of the first row whose root the name begins with. -/
def setFirst (disabled : Bool) (rootname : Bytes) (t : List (Entry Cb Nud)) :
    List (Entry Cb Nud) :=
  t.modify (t.findIdx fun e => decide (e.root <+: rootname)) fun e => { e with disabled }

/-- What a call does to the table. -/
def ListCall.apply (t : List (Entry Cb Nud)) : ListCall Cb Nud → List (Entry Cb Nud)
  | .add (some rootname) (some func) nud => t ++ [⟨⟨cString rootname, func, nud⟩, false⟩]
  | .add _ _ _ => t
  | .setDisabled rootname => setFirst true (cString rootname) t
  | .setEnabled rootname => setFirst false (cString rootname) t

/-- The table after some calls. -/
def table (calls : List (ListCall Cb Nud)) : List (Entry Cb Nud) := calls.foldl ListCall.apply []

/-- The first row whose root the URL begins with. -/
@[reducible] def earliest (t : List (Entry Cb Nud)) (url : Bytes) : Option (Entry Cb Nud) :=
  Route.first (fun e => e.root) t url

/-- Flags apart, the table holds what was registered. -/
theorem map_table (calls : List (ListCall Cb Nud)) :
    (table calls).map Entry.toRegistration = registered calls := by
  have hset : ∀ (d : Bool) (r : Bytes) (t : List (Entry Cb Nud)),
      (setFirst d r t).map Entry.toRegistration = t.map Entry.toRegistration := by
    intro d r t
    rw [setFirst, map_modify_same]
    exact fun _ => rfl
  have hfrom : ∀ t : List (Entry Cb Nud), (calls.foldl ListCall.apply t).map
      Entry.toRegistration = t.map Entry.toRegistration ++ registered calls := by
    induction calls with
    | nil => simp [registered]
    | cons c calls ih =>
        intro t
        rw [List.foldl_cons, ih]
        rcases c with ⟨_ | r, _ | f, nud⟩ | r | r
        · rfl
        · rfl
        · rfl
        · simp [ListCall.apply, registered, ListCall.registers]
        · rw [ListCall.apply, hset]
          rfl
        · rw [ListCall.apply, hset]
          rfl
  rw [table, hfrom, List.map_nil, List.nil_append]

/-! ## The list in memory -/

/-- The list in memory is the table. -/
structure Represents (ws : Sri Cb Nud) (t : List (Entry Cb Nud)) : Prop where
  chained : Chain.Chained Srn.next Srn.prev ws.heap ws.nodelistHead (Chain.cells ws.heap)
  rows : ws.heap.map Srn.entry = t
  nums : ws.heap.map Srn.num = (List.range ws.heap.length).map fun i => UInt32.ofNat (i + 1)
  nulFree : ∀ n ∈ ws.heap, NulFree n.root
  /-- No request has been timed. -/
  idle : ∀ n ∈ ws.heap, n.dai = 0

theorem Represents.fresh : Represents (Sri.fresh : Sri Cb Nud) [] where
  chained := Chain.Chained.nil
  rows := rfl
  nums := rfl
  nulFree n h := by cases h
  idle n h := by cases h

variable {ws : Sri Cb Nud} {t : List (Entry Cb Nud)}

theorem Represents.head (h : Represents ws t) : ws.nodelistHead = ws.heap.head?.map fun _ => 0 := by
  rw [h.chained.head, Chain.addrAt, Chain.getElem?_cells, Option.map_map, List.head?_eq_getElem?]
  rfl

/-- The comparison of the walk is a test for a prefix. -/
theorem strncmpEq_root {root : Bytes} (hroot : NulFree root) (name : Bytes) :
    strncmpEq name root root.length = decide (root <+: cString name) := by
  have hname : strncmpEq name root root.length = strncmpEq (cString name) root root.length := by
    unfold strncmpEq
    rw [cString_cString]
  rw [hname, Bool.eq_iff_iff, decide_eq_true_iff]
  exact strncmpEq_iff (nulFree_cString name) hroot

/-- `searest_node_find` gives the first node whose root the name begins with. -/
theorem Represents.find (h : Represents ws t) (rootname : Bytes) :
    searestNodeFind ws rootname =
      some (ws.heap.findIdx? fun n => decide (n.root <+: cString rootname)) := by
  have hsame : ∀ c ∈ Chain.cells ws.heap, strncmpEq rootname c.2.root c.2.root.length =
      decide (c.2.root <+: cString rootname) := by
    intro c hc
    have hmem : c.2 ∈ (Chain.cells ws.heap).map Prod.snd := List.mem_map_of_mem hc
    rw [Chain.map_snd_cells] at hmem
    exact strncmpEq_root (h.nulFree c.2 hmem) rootname
  dsimp only [searestNodeFind]
  rw [h.chained.scan_eq _ (Nat.le_of_eq (Chain.length_cells _)), Option.map_some,
    Chain.loop_search fun n : Srn Cb Nud => strncmpEq rootname n.root n.root.length,
    List.find?_congr hsame, Chain.find?_cells ws.heap fun n => decide (n.root <+: cString rootname)]

/-- The row of the node that is found. -/
theorem Represents.earliest_eq (h : Represents ws t) (text : Bytes) :
    earliest t text =
      ((ws.heap.findIdx? fun n => decide (n.root <+: text)).bind (ws.heap[·]?)).map Srn.entry := by
  have hkey : ∀ n : Srn Cb Nud, (Srn.entry n).root = Srn.root n := fun _ => rfl
  unfold earliest
  rw [← h.rows, Route.first_map (fun e => e.root) Srn.entry hkey, Route.first,
    List.find?_eq_bind_findIdx?_getElem?]

/-- Where the table has nothing, the walk finds nothing. -/
theorem Represents.find_none (h : Represents ws t) {url : Bytes}
    (hnone : earliest t (cString url) = none) : searestNodeFind ws url = some none := by
  rw [h.find]
  rw [h.earliest_eq, Option.map_eq_none_iff] at hnone
  cases hp : ws.heap.findIdx? fun n => decide (n.root <+: cString url) with
  | none => rfl
  | some p =>
      -- a place that is found holds a node
      obtain ⟨hlt, -⟩ := List.findIdx?_eq_some_iff_getElem.mp hp
      rw [hp, Option.bind_some, List.getElem?_eq_getElem hlt] at hnone
      cases hnone

/-- Where it has an entry, the walk finds a node with that entry. -/
theorem Represents.find_some (h : Represents ws t) {url : Bytes} {e : Entry Cb Nud}
    (he : earliest t (cString url) = some e) :
    ∃ p n, searestNodeFind ws url = some (some p) ∧ ws.heap[p]? = some n ∧ n.entry = e := by
  rw [h.earliest_eq] at he
  obtain ⟨n, hn, rfl⟩ := Option.map_eq_some_iff.mp he
  obtain ⟨p, hp, hload⟩ := Option.bind_eq_some_iff.mp hn
  exact ⟨p, n, by rw [h.find, hp], hload, rfl⟩

/-- `searest_node_count` counts up to `UINT_MAX`. -/
theorem Represents.count (h : Represents ws t) :
    searestNodeCount ws = some (UInt32.ofNat t.length) := by
  have hnums : (Chain.cells ws.heap).map (fun c => c.2.num) = ws.heap.map Srn.num := by
    conv => rhs; rw [← Chain.map_snd_cells ws.heap, List.map_map]
    rfl
  dsimp only [searestNodeCount]
  rw [h.chained.scan_eq _ (Nat.le_of_eq (Chain.length_cells _)), Option.map_some,
    Chain.loop_keep (fun n : Srn Cb Nud => n.num) 0, hnums, ← h.rows, List.length_map]
  show some ((ws.heap.map Srn.num).getLast?.getD 0) = _
  rw [h.nums]
  cases ws.heap.length with
  | zero => rfl
  | succ k =>
      rw [List.range_succ, List.map_append, List.map_singleton, List.getLast?_concat,
        Option.getD_some]

/-! ## Calls -/

/-- `searest_node_add` appends a row. -/
theorem Represents.add (h : Represents ws t) (rootname : Bytes) (func : Cb) (nud : Nud) :
    ∃ ws', searestNodeAdd ws (some rootname) (some func) nud = some (0, ws') ∧
      Represents ws' (t ++ [⟨⟨cString rootname, func, nud⟩, false⟩]) := by
  have hroot := nulFree_cString rootname
  rcases List.eq_nil_or_concat' ws.heap with hnil | ⟨ns, n, hns⟩
  · -- the first node
    have hhead : ws.nodelistHead = none := by
      rw [h.head, hnil]
      rfl
    have ht : t = [] := by
      rw [← h.rows, hnil]
      rfl
    refine ⟨⟨some ws.heap.length, ws.heap ++ [newNode 1 rootname func nud none]⟩, ?_, ?_⟩
    · simp only [searestNodeAdd, hhead]
    rw [hnil, ht]
    exact {
      chained := Chain.Chained.single rfl rfl
      rows := rfl
      nums := rfl
      nulFree := by simpa [newNode] using hroot
      idle := by simp [newNode] }
  · -- behind the last one
    have hlast : (ns ++ [n])[ns.length]? = some n := List.getElem?_concat_length
    have hchained := h.chained
    rw [hns, Chain.cells_concat] at hchained
    have hhead : ws.nodelistHead = some 0 := by
      rw [h.head, hns]
      cases ns <;> rfl
    -- the walk to the end of the list finds the last node
    have hfound : Chain.last Srn.next (ns ++ [n]) (ns ++ [n]).length 0 = some ns.length :=
      hchained.last_eq (by simp) hhead
    let n' : Srn Cb Nud := { n with next := some (ns ++ [n]).length }
    let m := newNode (n.num + 1) rootname func nud (some ns.length)
    have hset : (ns ++ [n]).set ns.length n' = ns ++ [n'] := by simp
    refine ⟨⟨some 0, ns ++ [n'] ++ [m]⟩, ?_, ?_⟩
    · simp only [searestNodeAdd, hhead, hns, hfound, hlast, Option.bind_eq_bind, Option.bind_some]
      rw [hset]
      rfl
    · have hpush := hchained.push (rfl : n'.next = _) rfl (rfl : m.next = none) rfl
      rw [hset, hhead, ← hns] at hpush
      have hnums := h.nums
      simp only [hns, List.map_append, List.map_singleton, List.length_append,
        List.length_singleton, List.range_succ] at hnums
      obtain ⟨hns', hn⟩ := List.append_inj' hnums rfl
      rw [List.singleton_inj] at hn
      have hold : n ∈ ws.heap := by simp [hns]
      -- of the nodes only the last has changed
      have hmem : ∀ {P : Srn Cb Nud → Prop}, P n' → P m → (∀ x ∈ ws.heap, P x) →
          ∀ x ∈ ns ++ [n'] ++ [m], P x := by
        intro P hn' hm hP x hx
        simp only [List.mem_append, List.mem_singleton] at hx
        rcases hx with (hx | rfl) | rfl
        · exact hP x (by simp [hns, hx])
        · exact hn'
        · exact hm
      refine ⟨?_, ?_, ?_, ?_, ?_⟩
      · rw [Chain.cells_concat, Chain.cells_concat]
        simpa [hns] using hpush
      · rw [← h.rows, hns]
        simp [Srn.entry, n', m, newNode]
      · simp only [List.map_append, List.map_singleton, List.length_append, List.length_singleton,
          List.range_succ, hns']
        simp [n', m, newNode, hn]
      · exact hmem (h.nulFree n hold) hroot h.nulFree
      · exact hmem (h.idle n hold) rfl h.idle

/-- A setter changes the first row whose root the name begins with, and says
    whether there is one. -/
theorem Represents.setDisabled (h : Represents ws t) (d : Bool) (rootname : Bytes) :
    ∃ ws', Nodelist.setDisabled d ws rootname =
        some (if (earliest t (cString rootname)).isSome then 0 else 1, ws') ∧
      Represents ws' (setFirst d (cString rootname) t) := by
  -- the list is searched as the table is
  have hidx : (ws.heap.findIdx? fun n => decide (n.root <+: cString rootname)) =
      t.findIdx? fun e => decide (e.root <+: cString rootname) := by
    rw [← h.rows, List.findIdx?_map]
    rfl
  have hsome : (earliest t (cString rootname)).isSome =
      (t.findIdx? fun e => decide (e.root <+: cString rootname)).isSome := by
    rw [Bool.eq_iff_iff, List.findIdx?_isSome, List.any_eq_true]
    exact List.find?_isSome
  unfold Nodelist.setDisabled setFirst
  rw [h.find, hidx, List.findIdx_eq_getD_findIdx?, hsome]
  cases hp : t.findIdx? fun e => decide (e.root <+: cString rootname) with
  | none =>
      refine ⟨ws, rfl, ?_⟩
      rw [Option.getD_none, List.modify_eq_self (Nat.le_refl _)]
      exact h
  | some p =>
      let f : Srn Cb Nud → Srn Cb Nud := fun n => { n with disabled := d }
      refine ⟨{ ws with heap := ws.heap.modify p f }, rfl, ?_, ?_, ?_, ?_, ?_⟩
      · rw [Chain.cells_modify]
        exact h.chained.modify p (fun _ => rfl) fun _ => rfl
      · rw [← h.rows, Option.getD_some]
        exact map_modify (g := Srn.entry) (fun _ => rfl) ws.heap p
      · rw [List.length_modify, ← h.nums]
        exact map_modify_same (g := Srn.num) (f := f) (fun _ => rfl) ws.heap p
      · exact forall_mem_modify h.nulFree h.nulFree
      · exact forall_mem_modify h.idle h.idle

/-- What one call does to the list is what it does to the table. -/
theorem Represents.exec (h : Represents ws t) (c : ListCall Cb Nud) :
    ∃ ret ws', c.exec ws = some (ret, ws') ∧ Represents ws' (c.apply t) := by
  rcases c with ⟨_ | r, _ | f, nud⟩ | r | r
  · exact ⟨1, ws, rfl, h⟩
  · exact ⟨1, ws, rfl, h⟩
  · exact ⟨2, ws, rfl, h⟩
  · obtain ⟨ws', hadd, h'⟩ := h.add r f nud
    exact ⟨0, ws', hadd, h'⟩
  · obtain ⟨ws', hset, h'⟩ := h.setDisabled true r
    exact ⟨_, ws', hset, h'⟩
  · obtain ⟨ws', hset, h'⟩ := h.setDisabled false r
    exact ⟨_, ws', hset, h'⟩

/-- No sequence of calls on a fresh instance is stuck, and the table says what
    it leaves. -/
theorem exists_runCalls (calls : List (ListCall Cb Nud)) :
    ∃ ws, runCalls Sri.fresh calls = some ws ∧ Represents ws (table calls) := by
  have hfrom : ∀ (ws : Sri Cb Nud) (t : List (Entry Cb Nud)), Represents ws t →
      ∃ ws', runCalls ws calls = some ws' ∧ Represents ws' (calls.foldl ListCall.apply t) := by
    induction calls with
    | nil => exact fun ws t h => ⟨ws, rfl, h⟩
    | cons c calls ih =>
        intro ws t h
        obtain ⟨ret, ws₁, hexec, h₁⟩ := h.exec c
        obtain ⟨ws₂, hrun, h₂⟩ := ih ws₁ _ h₁
        exact ⟨ws₂, by rw [runCalls, hexec, Option.bind_some, hrun], h₂⟩
  exact hfrom _ _ .fresh

end Webstore.Nodelist
