/-
  Webstore.Chain

  Doubly linked lists in a memory of cells.  An address is a place in the
  memory, a pointer an address or null; what the two pointers of a cell are
  called is up to the program.  `Chained` says that the cells at certain
  addresses are linked in a certain order, forwards and backwards, and the
  loops over such a list are loops over those cells.
-/
import Mathlib.Data.List.Nodup
import Webstore.Lists

namespace Webstore.Chain

variable {N : Type}

/-- The address of the `i`-th cell; null behind the last one. -/
def addrAt (cs : List (Nat × N)) (i : Nat) : Option Nat := cs[i]?.map Prod.fst

/-- The address of the cell before the `i`-th. -/
def addrBefore (cs : List (Nat × N)) : Nat → Option Nat
  | 0 => none
  | i + 1 => addrAt cs i

variable (next prev : N → Option Nat)

/-- The list that starts at `head` has the cells `cs`, each with its address. -/
structure Chained (mem : List N) (head : Option Nat) (cs : List (Nat × N)) : Prop where
  nodup : (cs.map Prod.fst).Nodup
  head : head = addrAt cs 0
  cell : ∀ i a n, cs[i]? = some (a, n) →
    mem[a]? = some n ∧ next n = addrAt cs (i + 1) ∧ prev n = addrBefore cs i

/-! ## Loops -/

/-- `while(cursor) { body; cursor = cursor->next; }` where the body may break
    with a value; `none` is a loop that reads no cell or goes on for more
    rounds than there is fuel. -/
def scan {σ β : Type} (mem : List N) (body : σ → Nat → N → σ ⊕ β) :
    Nat → Option Nat → σ → Option (σ ⊕ β)
  | _, none, s => some (.inl s)
  | 0, some _, _ => none
  | fuel + 1, some a, s =>
      mem[a]?.bind fun n =>
        match body s a n with
        | .inl s => scan mem body fuel (next n) s
        | .inr b => some (.inr b)

/-- `while(cursor->next) cursor = cursor->next;` -/
def last (mem : List N) : Nat → Nat → Option Nat
  | 0, _ => none
  | fuel + 1, a =>
      mem[a]?.bind fun n =>
        match next n with
        | none => some a
        | some b => last mem fuel b

/-- The same loop over the cells themselves. -/
def loop {σ β : Type} (body : σ → Nat → N → σ ⊕ β) : σ → List (Nat × N) → σ ⊕ β
  | s, [] => .inl s
  | s, c :: cs =>
      match body s c.1 c.2 with
      | .inl s => loop body s cs
      | .inr b => .inr b

variable {next prev} {mem : List N} {head : Option Nat} {cs : List (Nat × N)}

/-- The addresses of a list depend on the addresses of its cells only. -/
theorem addrAt_congr {ds : List (Nat × N)} (h : cs.map Prod.fst = ds.map Prod.fst) (i : Nat) :
    addrAt cs i = addrAt ds i := by
  rw [addrAt, addrAt, ← List.getElem?_map, ← List.getElem?_map, h]

theorem addrBefore_congr {ds : List (Nat × N)} {k : Nat} (h : ∀ i < k, addrAt cs i = addrAt ds i)
    {i : Nat} (hi : i ≤ k) : addrBefore cs i = addrBefore ds i := by
  cases i with
  | zero => rfl
  | succ i => exact h i hi

/-- Two cells of a list are neighbours forwards if and only if they are
    backwards. -/
theorem Chained.mirrored (h : Chained next prev mem head cs) {a b : Nat} {m n : N}
    (ha : (a, m) ∈ cs) (hb : (b, n) ∈ cs) : next m = some b ↔ prev n = some a := by
  obtain ⟨i, hi⟩ := List.mem_iff_getElem?.mp ha
  obtain ⟨j, hj⟩ := List.mem_iff_getElem?.mp hb
  obtain ⟨-, hnext, -⟩ := h.cell i a m hi
  obtain ⟨-, -, hprev⟩ := h.cell j b n hj
  -- an address stands at one place of the list only
  have hplace : ∀ {i j : Nat} {c d : Nat × N}, cs[i]? = some c → cs[j]? = some d → c.1 = d.1 →
      i = j := by
    intro i j c d hc hd heq
    have hlt : i < (cs.map Prod.fst).length := by
      rw [List.length_map]
      exact (List.getElem?_eq_some_iff.mp hc).1
    refine (List.getElem?_inj hlt h.nodup).mp ?_
    rw [List.getElem?_map, List.getElem?_map, hc, hd, Option.map_some, Option.map_some, heq]
  rw [hnext, hprev]
  constructor
  · intro heq
    obtain ⟨c, hc, hcb⟩ := Option.map_eq_some_iff.mp heq
    obtain rfl := hplace hc hj hcb
    show addrAt cs i = some a
    rw [addrAt, hi, Option.map_some]
  · intro heq
    cases j with
    | zero => cases heq
    | succ j =>
        obtain ⟨c, hc, hca⟩ := Option.map_eq_some_iff.mp heq
        obtain rfl := hplace hc hi hca
        rw [addrAt, hj, Option.map_some]

/-- A loop over a list is the loop over its cells. -/
theorem Chained.scan_eq (h : Chained next prev mem head cs) {σ β : Type}
    (body : σ → Nat → N → σ ⊕ β) {fuel : Nat} (hfuel : cs.length ≤ fuel) (s : σ) :
    scan next mem body fuel head s = some (loop body s cs) := by
  -- from the cell at any place, by induction on the fuel that is left
  have hfrom : ∀ (fuel i : Nat) (s : σ), cs.length ≤ i + fuel →
      scan next mem body fuel (addrAt cs i) s = some (loop body s (cs.drop i)) := by
    intro fuel
    induction fuel with
    | zero =>
        intro i s hle
        rw [Nat.add_zero] at hle
        rw [addrAt, List.getElem?_eq_none hle, List.drop_eq_nil_of_le hle]
        rfl
    | succ fuel ih =>
        intro i s hle
        cases hi : cs[i]? with
        | none =>
            rw [addrAt, hi, List.drop_eq_nil_of_le (List.getElem?_eq_none_iff.mp hi)]
            rfl
        | some c =>
            obtain ⟨hmem, hnext, -⟩ := h.cell i c.1 c.2 hi
            obtain ⟨hlt, rfl⟩ := List.getElem?_eq_some_iff.mp hi
            rw [addrAt, hi, List.drop_eq_getElem_cons hlt, Option.map_some, scan, hmem,
              Option.bind_some, loop, hnext]
            cases body s cs[i].1 cs[i].2 with
            | inl s => exact ih (i + 1) s (by omega)
            | inr b => rfl
  rw [h.head, hfrom fuel 0 s (by omega), List.drop_zero]

/-- The last cell is found from any other. -/
theorem Chained.last_eq {a : Nat} {n : N} (h : Chained next prev mem head (cs ++ [(a, n)]))
    {fuel : Nat} (hfuel : cs.length < fuel) {b : Nat} (hb : head = some b) :
    last next mem fuel b = some a := by
  have hfrom : ∀ (fuel i : Nat) (b : Nat), cs.length < i + fuel →
      addrAt (cs ++ [(a, n)]) i = some b → last next mem fuel b = some a := by
    intro fuel
    induction fuel with
    | zero =>
        intro i b hlt hb
        have hnone : addrAt (cs ++ [(a, n)]) i = none := by
          rw [addrAt, List.getElem?_eq_none (by simp; omega)]
          rfl
        rw [hnone] at hb
        cases hb
    | succ fuel ih =>
        intro i b hlt hb
        obtain ⟨c, hc, rfl⟩ := Option.map_eq_some_iff.mp hb
        obtain ⟨hmem, hnext, -⟩ := h.cell i c.1 c.2 hc
        rw [last, hmem, Option.bind_some, hnext]
        cases hi : addrAt (cs ++ [(a, n)]) (i + 1) with
        | some b => exact ih (i + 1) b (by omega) hi
        | none =>
            -- nothing follows: the cell is the last one
            have hlen := (List.getElem?_eq_some_iff.mp hc).1
            have hend := List.getElem?_eq_none_iff.mp (Option.map_eq_none_iff.mp hi)
            simp only [List.length_append, List.length_singleton] at hlen hend
            obtain rfl : i = cs.length := by omega
            rw [List.getElem?_concat_length] at hc
            cases hc
            rfl
  exact hfrom fuel 0 b (by omega) (h.head.symm.trans hb)

/-- A loop that looks for a cell breaks with the address of the first. -/
theorem loop_search (p : N → Bool) :
    (loop (fun (_ : Unit) a n => if p n then Sum.inr a else .inl ()) () cs).getRight? =
      (cs.find? fun c => p c.2).map Prod.fst := by
  induction cs with
  | nil => rfl
  | cons c cs ih =>
      rw [loop, List.find?_cons]
      cases p c.2 with
      | true => rfl
      | false => exact ih

/-- A loop that goes through a list keeps what it saw of the last cell. -/
theorem loop_keep {σ β : Type} (g : N → σ) (s : σ) :
    loop (fun (_ : σ) _ n => (Sum.inl (g n) : σ ⊕ β)) s cs =
      .inl ((cs.map fun c => g c.2).getLast?.getD s) := by
  induction cs generalizing s with
  | nil => rfl
  | cons c cs ih =>
      rw [loop, List.map_cons, List.getLast?_cons]
      exact ih (g c.2)

/-! ## Building and changing a list -/

theorem Chained.nil : Chained next prev mem none [] := ⟨List.nodup_nil, rfl, by simp⟩

theorem Chained.load (h : Chained next prev mem head cs) {a : Nat} {n : N} (ha : (a, n) ∈ cs) :
    mem[a]? = some n := by
  obtain ⟨i, hi⟩ := List.mem_iff_getElem?.mp ha
  exact (h.cell i a n hi).1

/-- The first cell of a list, in fresh memory. -/
theorem Chained.single {m : N} (hn : next m = none) (hp : prev m = none) :
    Chained next prev (mem ++ [m]) (some mem.length) [(mem.length, m)] where
  nodup := List.nodup_singleton _
  head := rfl
  cell := by
    intro i a n hi
    cases i with
    | zero =>
        cases hi
        exact ⟨List.getElem?_concat_length, hn, hp⟩
    | succ i => cases hi

theorem Chained.lt (h : Chained next prev mem head cs) {c : Nat × N} (hc : c ∈ cs) :
    c.1 < mem.length := (List.getElem?_eq_some_iff.mp (h.load hc)).1

/-- A cell in fresh memory is hooked in behind the last one. -/
theorem Chained.push {a : Nat} {n n' m : N} (h : Chained next prev mem head (cs ++ [(a, n)]))
    (hn' : next n' = some mem.length) (hp' : prev n' = prev n) (hn : next m = none)
    (hp : prev m = some a) :
    Chained next prev (mem.set a n' ++ [m]) head (cs ++ [(a, n'), (mem.length, m)]) := by
  have ha : a < mem.length := h.lt (c := (a, n)) (by simp)
  have hfst : (cs ++ [(a, n')]).map Prod.fst = (cs ++ [(a, n)]).map Prod.fst := by simp
  rw [List.append_cons cs]
  generalize hnew : cs ++ [(a, n')] ++ [(mem.length, m)] = new
  -- the old cells keep their places
  have hold : ∀ i < cs.length + 1, addrAt new i = addrAt (cs ++ [(a, n)]) i := by
    intro i hi
    rw [← addrAt_congr hfst, ← hnew, addrAt, addrAt, List.getElem?_append_left (by simpa using hi)]
  have hlast : addrAt new (cs.length + 1) = some mem.length := by
    rw [← hnew, addrAt, List.getElem?_append_right (by simp)]
    simp
  refine ⟨?_, ?_, ?_⟩
  · rw [← hnew, List.map_append, hfst]
    refine List.nodup_append'.mpr ⟨h.nodup, List.nodup_singleton _, ?_⟩
    rw [List.map_singleton, List.disjoint_singleton]
    intro hmem
    obtain ⟨c, hc, heq⟩ := List.mem_map.mp hmem
    exact absurd (h.lt hc) (by omega)
  · rw [h.head, hold 0 (by omega)]
  · intro i b c hi
    rw [← hnew] at hi
    rcases getElem?_append_singleton hi with hi | ⟨rfl, heq⟩
    · rcases getElem?_append_singleton hi with hi | ⟨rfl, heq⟩
      · -- the cells before stay as they are
        have hlt := (List.getElem?_eq_some_iff.mp hi).1
        have hi' : (cs ++ [(a, n)])[i]? = some (b, c) := by rwa [List.getElem?_append_left hlt]
        obtain ⟨hmem, hnext, hprev⟩ := h.cell i b c hi'
        have hne : a ≠ b := by
          rintro rfl
          have hnodup := h.nodup
          rw [List.map_append, List.nodup_append'] at hnodup
          exact hnodup.2.2 (List.mem_map_of_mem (List.mem_of_getElem? hi)) (by simp)
        have hb := (List.getElem?_eq_some_iff.mp hmem).1
        refine ⟨?_, ?_, ?_⟩
        · rw [List.getElem?_append_left (by simpa using hb), List.getElem?_set_ne hne, hmem]
        · rw [hnext, hold (i + 1) (by omega)]
        · rw [hprev, addrBefore_congr hold (by omega)]
      · -- the cell that was the last
        cases heq
        have hprev := (h.cell cs.length a n List.getElem?_concat_length).2.2
        refine ⟨?_, ?_, ?_⟩
        · rw [List.getElem?_append_left (by simpa using ha), List.getElem?_set_self ha]
        · rw [hn', hlast]
        · rw [hp', hprev, addrBefore_congr hold (by omega)]
    · -- the new one
      cases heq
      rw [List.length_append, List.length_singleton]
      refine ⟨?_, ?_, ?_⟩
      · rw [List.getElem?_append_right (by simp)]
        simp
      · rw [hn, ← hnew, addrAt, List.getElem?_eq_none (by simp)]
        rfl
      · rw [hp]
        show some a = addrAt new cs.length
        rw [hold _ (by omega), addrAt, List.getElem?_concat_length]
        rfl

/-- The cell at `a` changed by `f`. -/
def change (a : Nat) (f : N → N) (c : Nat × N) : Nat × N := if c.1 = a then (c.1, f c.2) else c

@[simp] theorem change_fst (a : Nat) (f : N → N) (c : Nat × N) : (change a f c).1 = c.1 := by
  unfold change
  split <;> rfl

/-- A change of one cell that leaves its pointers alone. -/
theorem Chained.modify (h : Chained next prev mem head cs) (a : Nat) {f : N → N}
    (hn : ∀ n, next (f n) = next n) (hp : ∀ n, prev (f n) = prev n) :
    Chained next prev (mem.modify a f) head (cs.map (change a f)) := by
  have hfst : (cs.map (change a f)).map Prod.fst = cs.map Prod.fst := by
    rw [List.map_map]
    exact List.map_congr_left fun c _ => change_fst a f c
  -- no cell moves, so all links lead where they led
  have haddr := addrAt_congr hfst
  have hbefore : ∀ i, addrBefore (cs.map (change a f)) i = addrBefore cs i :=
    fun i => addrBefore_congr (fun i _ => haddr i) (Nat.le_refl i)
  refine ⟨?_, ?_, ?_⟩
  · rw [hfst]
    exact h.nodup
  · rw [haddr]
    exact h.head
  · intro i b n hi
    rw [List.getElem?_map, Option.map_eq_some_iff] at hi
    obtain ⟨⟨b', n'⟩, hi, heq⟩ := hi
    obtain ⟨hmem, hnext, hprev⟩ := h.cell i b' n' hi
    rw [haddr, hbefore, List.getElem?_modify]
    unfold change at heq
    by_cases hab : b' = a
    · rw [if_pos hab] at heq
      cases heq
      rw [hmem, Option.map_eq_map, Option.map_some, if_pos hab.symm]
      exact ⟨rfl, (hn n').trans hnext, (hp n').trans hprev⟩
    · rw [if_neg hab] at heq
      cases heq
      rw [hmem, Option.map_eq_map, Option.map_some, if_neg (Ne.symm hab)]
      exact ⟨rfl, hnext, hprev⟩

/-! ## Cells in the order of their addresses -/

/-- All cells of a memory. -/
def cells (mem : List N) : List (Nat × N) := mem.zipIdx.map Prod.swap

theorem getElem?_cells (mem : List N) (i : Nat) :
    (cells mem)[i]? = mem[i]?.map fun n => (i, n) := by
  rw [cells, List.getElem?_map, List.getElem?_zipIdx, Option.map_map, Nat.zero_add]
  rfl

@[simp] theorem length_cells (mem : List N) : (cells mem).length = mem.length := by simp [cells]

theorem map_snd_cells (mem : List N) : (cells mem).map Prod.snd = mem := by
  refine List.ext_getElem? fun i => ?_
  rw [List.getElem?_map, getElem?_cells, Option.map_map]
  exact Option.map_id'

theorem cells_concat (mem : List N) (n : N) :
    cells (mem ++ [n]) = cells mem ++ [(mem.length, n)] := by
  rw [cells, List.zipIdx_append, List.map_append, ← cells, Nat.zero_add]
  rfl

/-- What is changed in one record is changed in its cell. -/
theorem cells_modify (mem : List N) (a : Nat) (f : N → N) :
    cells (mem.modify a f) = (cells mem).map (change a f) := by
  refine List.ext_getElem? fun i => ?_
  rw [getElem?_cells, List.getElem?_map, getElem?_cells, List.getElem?_modify]
  cases mem[i]? with
  | none => rfl
  | some n =>
      by_cases h : a = i
      · simp [change, h]
      · simp [change, h, Ne.symm h]

/-- The address of the first cell of a kind is its place. -/
theorem find?_cells (mem : List N) (p : N → Bool) :
    ((cells mem).find? fun c => p c.2).map Prod.fst = mem.findIdx? p := by
  have hidx : (cells mem).findIdx? (fun c => p c.2) = mem.findIdx? p := by
    conv => rhs; rw [← map_snd_cells mem, List.findIdx?_map]
    rfl
  rw [List.find?_eq_bind_findIdx?_getElem?, hidx]
  cases hi : mem.findIdx? p with
  | none => rfl
  | some i =>
      obtain ⟨hlt, -, -⟩ := List.findIdx?_eq_some_iff_getElem.mp hi
      rw [Option.bind_some, getElem?_cells, List.getElem?_eq_getElem hlt]
      rfl

end Webstore.Chain
