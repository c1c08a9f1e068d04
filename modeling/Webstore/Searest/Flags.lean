/-
  Webstore.Searest.Flags

  Which node `searest_node_set_disabled` and `searest_node_set_enabled` are
  about.  They look a name up as if it were a URL, so a node whose root is
  only a part of the name is in the way if it was registered before.
-/
import Webstore.Searest.Table

namespace Webstore.Nodelist

open Webstore.Libc

variable {Cb Nud : Type}

/-- The roots in the order of their registration. -/
def roots (calls : List (ListCall Cb Nud)) : List Bytes := (registered calls).map Registration.root

/-- The flag set on the nodes with this root. -/
def Sri.mark (ws : Sri Cb Nud) (disabled : Bool) (root : Bytes) : Sri Cb Nud :=
  { ws with heap := ws.heap.map fun n => if n.root = root then { n with disabled } else n }

/-- The setters are about the node whose root is the name, if there is one. -/
structure SetsExactly (ws : Sri Cb Nud) (roots : List Bytes) (name : Bytes) : Prop where
  disables : searestNodeSetDisabled ws name =
    some (if cString name ∈ roots then 0 else 1, ws.mark true (cString name))
  enables : searestNodeSetEnabled ws name =
    some (if cString name ∈ roots then 0 else 1, ws.mark false (cString name))

variable {ws : Sri Cb Nud} {t : List (Entry Cb Nud)}

theorem Sri.mark_of_not_mem {d : Bool} {root : Bytes} (h : ∀ n ∈ ws.heap, n.root ≠ root) :
    ws.mark d root = ws := by
  have hmap : (ws.heap.map fun n => if n.root = root then { n with disabled := d } else n) =
      ws.heap.map id := List.map_congr_left fun n hn => if_neg (h n hn)
  rw [mark, hmap, List.map_id]

/-- One node has the root: marking it is changing that node. -/
theorem Sri.mark_eq_modify {d : Bool} {p : Nat} {n : Srn Cb Nud}
    (hnodup : (ws.heap.map Srn.root).Nodup) (hload : ws.heap[p]? = some n) :
    ws.mark d n.root = { ws with heap := ws.heap.modify p fun n => { n with disabled := d } } := by
  have hlt : p < (ws.heap.map Srn.root).length := by
    rw [List.length_map]
    exact (List.getElem?_eq_some_iff.mp hload).1
  have hheap : (ws.heap.map fun m => if m.root = n.root then { m with disabled := d } else m) =
      ws.heap.modify p fun n => { n with disabled := d } := by
    refine List.ext_getElem? fun i => ?_
    rw [List.getElem?_map, List.getElem?_modify]
    -- roots are not used twice, so one node has this one
    cases hi : ws.heap[i]? with
    | none => rfl
    | some m =>
        have hplace : m.root = n.root ↔ p = i := by
          constructor
          · intro heq
            refine (List.getElem?_inj hlt hnodup).mp ?_
            rw [List.getElem?_map, List.getElem?_map, hload, hi, Option.map_some, Option.map_some,
              heq]
          · rintro rfl
            rw [hload, Option.some_inj] at hi
            rw [hi]
        simp only [Option.map_eq_map, Option.map_some, hplace]
  rw [mark, hheap]

theorem Represents.setDisabled_none (h : Represents ws t) {d : Bool} {name : Bytes}
    (hnone : earliest t (cString name) = none) :
    Nodelist.setDisabled d ws name = some (1, ws) := by
  unfold Nodelist.setDisabled
  rw [h.find_none hnone]
  rfl

/-- The setters are exact as long as the search for a name ends at the name. -/
theorem Represents.exact_iff (h : Represents ws t)
    (hnodup : (t.map fun e => e.root).Nodup) {name : Bytes} :
    SetsExactly ws (t.map fun e => e.root) name ↔
      ∀ e, earliest t (cString name) = some e → e.root = cString name := by
  have hroots : (t.map fun e => e.root) = ws.heap.map Srn.root := by
    rw [← h.rows, List.map_map]
    rfl
  cases he : earliest t (cString name) with
  | none =>
      have hnot : ∀ n ∈ ws.heap, n.root ≠ cString name := by
        intro n hn heq
        have hmem : n.entry ∈ t := h.rows ▸ List.mem_map_of_mem hn
        exact Route.first_eq_none.mp he n.entry hmem (heq ▸ List.prefix_refl _)
      have hret : cString name ∉ t.map fun e => e.root := by
        rw [hroots]
        intro hmem
        obtain ⟨n, hn, heq⟩ := List.mem_map.mp hmem
        exact hnot n hn heq
      have hset : ∀ d, Nodelist.setDisabled d ws name = some
          (if cString name ∈ t.map (fun e => e.root) then 0 else 1, ws.mark d (cString name)) := by
        intro d
        rw [h.setDisabled_none he, Sri.mark_of_not_mem hnot, if_neg hret]
      exact iff_of_true ⟨hset true, hset false⟩ fun e he => by cases he
  | some e =>
      obtain ⟨p, n, hfind, hload, rfl⟩ := h.find_some he
      have hset : ∀ d, Nodelist.setDisabled d ws name =
          some (0, { ws with heap := ws.heap.modify p fun n => { n with disabled := d } }) := by
        intro d
        unfold Nodelist.setDisabled
        rw [hfind]
        rfl
      constructor
      · intro hex e' he'
        cases he'
        by_contra hne
        -- one of the two setters changes the flag, and of this node
        have hclaim : Nodelist.setDisabled (!n.disabled) ws name =
            some (if cString name ∈ t.map (fun e => e.root) then 0 else 1,
              ws.mark (!n.disabled) (cString name)) := by
          cases n.disabled with
          | false => exact hex.disables
          | true => exact hex.enables
        have heq := (hset (!n.disabled)).symm.trans hclaim
        obtain ⟨-, hws⟩ := Prod.mk.inj (Option.some_inj.mp heq)
        have hp := congrArg (fun ws => (ws.heap[p]?).map Srn.disabled) hws
        have hroot : ¬ n.root = cString name := hne
        simp [Sri.mark, hload, hroot] at hp
      · intro hkey
        have hroot : n.root = cString name := hkey n.entry rfl
        have hret : cString name ∈ t.map fun e => e.root := by
          rw [hroots, ← hroot]
          exact List.mem_map_of_mem (List.mem_of_getElem? hload)
        have hmark : ∀ d, Nodelist.setDisabled d ws name = some
            (if cString name ∈ t.map (fun e => e.root) then 0 else 1,
              ws.mark d (cString name)) := by
          intro d
          rw [hset, if_pos hret, ← hroot, Sri.mark_eq_modify (hroots ▸ hnodup) hload]
        exact ⟨hmark true, hmark false⟩

/-! ## Every sequence of calls -/

theorem map_root_table (calls : List (ListCall Cb Nud)) :
    ((table calls).map fun e => e.root) = roots calls := by
  rw [roots, ← map_table, List.map_map]
  rfl

/-- Nodes whose roots differ are enabled and disabled one by one, unless a
    part of the name was registered before the name itself. -/
theorem setsExactly_iff (calls : List (ListCall Cb Nud)) (name : Bytes)
    (hroots : (roots calls).Nodup) :
    ∃ ws, runCalls Sri.fresh calls = some ws ∧
      (SetsExactly ws (roots calls) name ↔ Route.Unshadowed (roots calls) (cString name)) := by
  obtain ⟨ws, hrun, h⟩ := exists_runCalls calls
  rw [← map_root_table] at hroots ⊢
  exact ⟨ws, hrun, (h.exact_iff hroots).trans Route.unshadowed_iff.symm⟩

/-- A node for all keys, and one for the keys of 128 bits. -/
def nestedCalls : List (ListCall Unit Unit) :=
  [.add (some (ascii "/store/")) (some ()) (), .add (some (ascii "/store/128/")) (some ()) ()]

theorem setsExactly_nested :
    ∃ ws, runCalls Sri.fresh nestedCalls = some ws ∧
      (SetsExactly ws (roots nestedCalls) (ascii "/store/128/") ↔
        Route.Unshadowed (roots nestedCalls) (cString (ascii "/store/128/"))) :=
  setsExactly_iff nestedCalls (ascii "/store/128/") (by decide)

/-- Disabling the second node disables the first. -/
theorem nested_disables_other :
    (roots nestedCalls).Nodup ∧ ascii "/store/128/" ∈ roots nestedCalls ∧
      ∃ ws, runCalls Sri.fresh nestedCalls = some ws ∧
        (searestNodeSetDisabled ws (ascii "/store/128/")).map
          (fun r => (r.1, r.2.heap.map fun n => (n.root, n.disabled))) =
            some (0, [(ascii "/store/", true), (ascii "/store/128/", false)]) ∧
        ¬ SetsExactly ws (roots nestedCalls) (ascii "/store/128/") := by
  have hroots : (roots nestedCalls).Nodup := by decide
  refine ⟨hroots, by decide, _, rfl, by decide, ?_⟩
  intro h
  have hflags := congrArg (Option.map fun r => r.2.heap.map Srn.disabled) h.disables
  exact absurd hflags (by decide)

end Webstore.Nodelist
