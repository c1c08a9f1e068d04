/-
  Webstore.Searest.Timing

  The durations a node keeps.  They go round a ring of TIMESLOTS slots, and
  once the ring is full its average is that of the last ones.  The counter
  behind it is an `int` that is never reset: when it wraps the remainder turns
  negative, and the next duration is written in front of the array.
-/
import Webstore.Ring
import Webstore.Searest.Nodelist

namespace Webstore.Nodelist

open Webstore.Libc

variable {Cb Nud : Type}

/-- The durations in turn. -/
def saveTimes (n : Srn Cb Nud) (ds : List Int) : Except Fault (Srn Cb Nud) :=
  ds.foldlM searestNodeSaveTime n

/-- No time has been saved: the fields are as `calloc` left them. -/
structure Srn.Zeroed (n : Srn Cb Nud) : Prop where
  dai : n.dai = 0
  da : n.da = Vector.replicate timeslots 0
  statsready : n.statsready = false

/-- The last durations, at most as many as there are slots. -/
def latest (ds : List Int) : List Int := ds.drop (ds.length - timeslots)

/-- Every duration is written to a slot; once the average is on, it is that of
    the latest durations. -/
structure KeepsLatest (n : Srn Cb Nud) (ds : List Int) : Prop where
  slots : ∀ past d rest, ds = past ++ d :: rest →
    ∃ m, saveTimes n past = .ok m ∧ 0 ≤ m.slot ∧ m.slot < timeslots
  holds : ∀ past rest m, ds = past ++ rest → saveTimes n past = .ok m → m.statsready = true →
    (latest past).length = timeslots ∧ m.da.toList.Perm (latest past)
  average : ∀ past rest m, ds = past ++ rest → saveTimes n past = .ok m → m.statsready = true →
    ∀ (ws : Sri Cb Nud) name p, searestNodeFind ws name = some (some p) → ws.heap[p]? = some m →
      searestNodeGetAvgDuration ws name =
        some ((((latest past).map toSizeT).sum % 2 ^ 64 / timeslots : Nat) : Int)

/-! ## One call -/

/-- What the node is like after some calls. -/
structure After (past : List Int) (m : Srn Cb Nud) : Prop where
  dai : m.dai = toInt past.length
  ready : m.statsready = decide (timeslots < past.length)
  holds : Ring.Holds (List.replicate timeslots 0) past m.da.toList

theorem Srn.Zeroed.after {n : Srn Cb Nud} (h : n.Zeroed) : After [] n where
  dai := by rw [h.dai]; rfl
  ready := by rw [h.statsready]; rfl
  holds := by
    rw [h.da]
    exact .init _

variable {past : List Int} {m : Srn Cb Nud}

/-- The counter before it wraps. -/
theorem After.dai_eq (h : After past m) (hlt : past.length < 2 ^ 31) : m.dai = past.length := by
  rw [h.dai, toInt_of_range (by omega) (by omega)]

/-- The slot of the next duration. -/
theorem After.slot (h : After past m) (hlt : past.length < 2 ^ 31) :
    m.slot = ((past.length % timeslots : Nat) : Int) := by
  rw [Srn.slot, h.dai_eq hlt]
  exact (Int.ofNat_tmod _ _).symm

/-- As long as the counter has not wrapped a call keeps all this. -/
theorem After.save (h : After past m) (hlt : past.length < 2 ^ 31) (d : Int) :
    ∃ m', searestNodeSaveTime m d = .ok m' ∧ After (past ++ [d]) m' := by
  have hslot := h.slot hlt
  have hmod : past.length % timeslots < timeslots := Nat.mod_lt _ (by decide)
  have hin : 0 ≤ m.slot ∧ m.slot < timeslots := by omega
  have hnat : m.slot.toNat = past.length % timeslots := by omega
  have hlen : (past ++ [d]).length = past.length + 1 := by simp
  rw [searestNodeSaveTime, dif_pos hin]
  refine ⟨_, rfl, ?_, ?_, ?_⟩
  · show toInt (m.dai + 1) = _
    rw [h.dai_eq hlt, hlen, Nat.cast_add, Nat.cast_one]
  · -- the first slot is written again when all of them have been
    show (m.statsready || (1 < toInt (m.dai + 1) && m.slot == 0)) = _
    rw [Bool.eq_iff_iff, h.ready, h.dai_eq hlt, hslot, hlen]
    simp only [Bool.or_eq_true, Bool.and_eq_true, decide_eq_true_iff, beq_iff_eq]
    simp only [timeslots]
    rcases Nat.lt_or_ge (past.length + 1) (2 ^ 31) with hsmall | hlast
    · have hint : toInt ((past.length : Int) + 1) = past.length + 1 :=
        toInt_of_range (by omega) (by omega)
      rw [hint]
      omega
    · omega
  · have hwrite := h.holds.write (by decide) d
    rw [List.length_replicate] at hwrite
    simpa only [Vector.toList_set, hnat] using hwrite

/-! ## All calls -/

/-- The last call saves its time behind the others. -/
theorem saveTimes_concat (n : Srn Cb Nud) (past : List Int) (d : Int) :
    saveTimes n (past ++ [d]) = (saveTimes n past).bind fun m => searestNodeSaveTime m d := by
  rw [saveTimes, List.foldlM_append]
  congr 1
  funext m
  rw [List.foldlM_cons]
  exact bind_pure _

/-- From a node with no times, up to 2^31 calls are saved one after the other. -/
theorem Srn.Zeroed.run {n : Srn Cb Nud} (h : n.Zeroed) (past : List Int)
    (hle : past.length ≤ 2 ^ 31) : ∃ m, saveTimes n past = .ok m ∧ After past m := by
  induction past using List.reverseRecOn with
  | nil => exact ⟨n, rfl, h.after⟩
  | append_singleton past d ih =>
      rw [List.length_append, List.length_singleton] at hle
      have hlt : past.length < 2 ^ 31 := by omega
      obtain ⟨m, hm, hafter⟩ := ih (by omega)
      obtain ⟨m', hm', hafter'⟩ := hafter.save hlt d
      exact ⟨m', by rw [saveTimes_concat, hm, ← hm']; rfl, hafter'⟩

/-- Every total of `unsigned long`s. -/
theorem foldl_total (ds : List Int) {total : Nat} (h : total < 2 ^ 64) :
    ds.foldl (fun total d => (total + toSizeT d) % 2 ^ 64) total =
      (total + (ds.map toSizeT).sum) % 2 ^ 64 := by
  induction ds generalizing total with
  | nil => exact (Nat.mod_eq_of_lt h).symm
  | cons d ds ih =>
      rw [List.foldl_cons, ih (Nat.mod_lt _ (by decide)), Nat.mod_add_mod, List.map_cons,
        List.sum_cons, Nat.add_assoc]

/-- The average of a node whose ring holds certain durations. -/
theorem avgDuration_eq {ws : Sri Cb Nud} {name : Bytes} {p : Nat} {ds : List Int}
    (hfind : searestNodeFind ws name = some (some p)) (hload : ws.heap[p]? = some m)
    (hready : m.statsready = true) (hperm : m.da.toList.Perm ds) :
    searestNodeGetAvgDuration ws name =
      some (((ds.map toSizeT).sum % 2 ^ 64 / timeslots : Nat) : Int) := by
  have htotal : m.da.foldl (fun total d => (total + toSizeT d) % 2 ^ 64) 0 =
      (ds.map toSizeT).sum % 2 ^ 64 := by
    rw [← Vector.foldl_toList, foldl_total _ (by decide), Nat.zero_add, (hperm.map toSizeT).sum_nat]
  simp only [searestNodeGetAvgDuration, hfind, hload, hready, htotal, Option.bind_eq_bind,
    Option.bind_some, if_true]
  rfl

/-- A full ring holds the latest durations. -/
theorem After.perm (h : After past m) (hready : m.statsready = true) :
    (latest past).length = timeslots ∧ m.da.toList.Perm (latest past) := by
  rw [h.ready, decide_eq_true_iff] at hready
  have hperm := h.holds.perm (by rw [List.length_replicate]; omega)
  rw [List.length_replicate] at hperm
  refine ⟨?_, hperm⟩
  rw [latest, List.length_drop]
  omega

/-- The call after the counter has wrapped goes to slot -48. -/
theorem After.wrapped (h : After past m) (hlen : past.length = 2 ^ 31) : m.slot = -48 := by
  rw [Srn.slot, h.dai, hlen]
  decide

/-- A call more than an `int` can count is not written inside the array. -/
theorem Srn.Zeroed.not_keepsLatest {n : Srn Cb Nud} (h : n.Zeroed) {ds : List Int}
    (hlt : 2 ^ 31 < ds.length) : ¬ KeepsLatest n ds := by
  intro hk
  have hlen : (ds.take (2 ^ 31)).length = 2 ^ 31 := by
    rw [List.length_take]
    omega
  obtain ⟨m, hm, hafter⟩ := h.run (ds.take (2 ^ 31)) (Nat.le_of_eq hlen)
  have hsplit : ds = ds.take (2 ^ 31) ++ ds[2 ^ 31] :: ds.drop (2 ^ 31 + 1) := by
    rw [← List.drop_eq_getElem_cons, List.take_append_drop]
  obtain ⟨m', hm', hslot, -⟩ := hk.slots _ _ _ hsplit
  obtain rfl : m = m' := Except.ok.inj (hm.symm.trans hm')
  rw [hafter.wrapped hlen] at hslot
  omega

/-- The ring keeps the latest durations until the counter wraps. -/
theorem Srn.Zeroed.keepsLatest {n : Srn Cb Nud} (h : n.Zeroed) {ds : List Int}
    (hle : ds.length ≤ 2 ^ 31) : KeepsLatest n ds := by
  have hkept : ∀ {past rest m}, ds = past ++ rest → saveTimes n past = .ok m → After past m := by
    intro past rest m hsplit hm
    rw [hsplit, List.length_append] at hle
    obtain ⟨m', hm', hafter⟩ := h.run past (by omega)
    obtain rfl : m = m' := Except.ok.inj (hm.symm.trans hm')
    exact hafter
  constructor
  · intro past d rest hsplit
    have hlt : past.length < 2 ^ 31 := by
      rw [hsplit, List.length_append, List.length_cons] at hle
      omega
    obtain ⟨m, hm, hafter⟩ := h.run past (Nat.le_of_lt hlt)
    have hmod : past.length % timeslots < timeslots := Nat.mod_lt _ (by decide)
    refine ⟨m, hm, ?_⟩
    rw [hafter.slot hlt]
    omega
  · intro past rest m hsplit hm hready
    exact (hkept hsplit hm).perm hready
  · intro past rest m hsplit hm hready ws name p hfind hload
    exact avgDuration_eq hfind hload hready ((hkept hsplit hm).perm hready).2

/-- From a zeroed node on every duration is written inside the array, and the
    array holds the latest ones, for as many calls as an `int` can count. -/
theorem keepsLatest_iff {n : Srn Cb Nud} (h : n.Zeroed) (ds : List Int) :
    KeepsLatest n ds ↔ ds.length ≤ 2 ^ 31 := by
  refine ⟨fun hk => ?_, h.keepsLatest⟩
  by_contra hlt
  exact h.not_keepsLatest (by omega) hk

/-- A node that has just been added is zeroed. -/
theorem zeroed_newNode (num : UInt32) (rootname : Bytes) (func : Cb) (nud : Nud)
    (prev : Option Nat) : (newNode num rootname func nud prev).Zeroed := ⟨rfl, rfl, rfl⟩

theorem keepsLatest_newNode :
    KeepsLatest (newNode 1 (ascii "/config/") () () none) [3, 5] ↔ [(3 : Int), 5].length ≤ 2 ^ 31 :=
  keepsLatest_iff (zeroed_newNode 1 (ascii "/config/") () () none) [3, 5]

/-- One call more than that writes in front of the array. -/
theorem wrapped_out_of_bounds :
    (∃ m, saveTimes (newNode 1 (ascii "/config/") () () none) (List.replicate (2 ^ 31) 7) = .ok m ∧
      m.slot = -48 ∧ searestNodeSaveTime m 7 = .error .outOfBounds) ∧
    ¬ KeepsLatest (newNode 1 (ascii "/config/") () () none) (List.replicate (2 ^ 31 + 1) 7) := by
  have hzeroed := zeroed_newNode 1 (ascii "/config/") () () none
  refine ⟨?_, ?_⟩
  · have hlen : (List.replicate (2 ^ 31) (7 : Int)).length = 2 ^ 31 := List.length_replicate
    obtain ⟨m, hm, hafter⟩ := hzeroed.run (List.replicate (2 ^ 31) 7) (Nat.le_of_eq hlen)
    have hslot := hafter.wrapped hlen
    refine ⟨m, hm, hslot, ?_⟩
    rw [searestNodeSaveTime, dif_neg]
    omega
  · refine hzeroed.not_keepsLatest ?_
    rw [List.length_replicate]
    omega

end Webstore.Nodelist
