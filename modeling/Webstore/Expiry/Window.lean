/-
  Webstore.Expiry.Window

  Fixed-window counting.  A counter lives for a period from its first event on
  and admits at most `n` events while it lives; the next one starts with a life
  of its own.  The lives of a counter, newest first, are lists of the times of
  its events, first event first.

  An interval as long as a period can meet two lives, so `n` is not a bound on
  the events in it: the older life has at least one event before it, the newer
  may lie in it as a whole.
-/
import Mathlib.Data.List.Basic

namespace Webstore.Expiry

/-- The life that began at the head of `l` is over at `t`. -/
def Over (period : Nat) (l : List Nat) (t : Nat) : Prop :=
  ∃ c, l.head? = some c ∧ c + period ≤ t ∧ ∀ x ∈ l, x < c + period

/-- What a counter with room for `n` events in a period can have counted.  A life
    that goes on for longer, or for ever, is not excluded. -/
inductive Lives (period n : Nat) : List (List Nat) → Prop
  | none : Lives period n []
  | create {ls : List (List Nat)} {t : Nat} (h : Lives period n ls)
      (hover : ∀ l ∈ ls.head?, Over period l t) : Lives period n ([t] :: ls)
  | add {l : List Nat} {ls : List (List Nat)} {t : Nat} (h : Lives period n (l :: ls))
      (hroom : l.length < n) (hlate : ∀ x ∈ l, x ≤ t) : Lives period n ((l ++ [t]) :: ls)

/-- How many of the times lie in the half-open interval of a period from `a` on. -/
def within (period a : Nat) (ts : List Nat) : Nat :=
  ts.countP fun t => a ≤ t && t < a + period

/-- How many lie at or after `a`. -/
def since (a : Nat) (ts : List Nat) : Nat := ts.countP fun t => a ≤ t

section
variable {period n a t : Nat} {l : List Nat} {ls : List (List Nat)}

theorem within_append (ts us : List Nat) :
    within period a (ts ++ us) = within period a ts + within period a us := List.countP_append

theorem since_append (ts us : List Nat) :
    since a (ts ++ us) = since a ts + since a us := List.countP_append

theorem within_le_since (period a : Nat) (ts : List Nat) :
    within period a ts ≤ since a ts :=
  List.countP_mono_left fun _ _ h => (Bool.and_eq_true_iff.mp h).1

theorem within_le_length (period a : Nat) (ts : List Nat) :
    within period a ts ≤ ts.length :=
  List.countP_le_length

theorem since_eq_zero {ts : List Nat} (h : ∀ x ∈ ts, x < a) : since a ts = 0 :=
  List.countP_eq_zero.mpr fun x hx => by simpa using h x hx

/-- An event before `a` is not among those since `a`. -/
theorem since_cons_lt {c : Nat} (h : c < a) (ts : List Nat) : since a (c :: ts) ≤ ts.length := by
  have hc : since a (c :: ts) = since a ts := List.countP_cons_of_neg (by simpa using h)
  rw [hc]
  exact List.countP_le_length

/-! ## One life -/

theorem Lives.ne_nil (h : Lives period n (l :: ls)) : l ≠ [] := by
  cases h with
  | create => simp
  | add => simp

/-- The older lives are those of a counter. -/
theorem Lives.tail (h : Lives period n (l :: ls)) : Lives period n ls := by
  generalize hL : l :: ls = L at h
  induction h generalizing l with
  | none => cases hL
  | create h =>
      cases hL
      exact h
  | add h hroom hlate ih =>
      cases hL
      exact ih rfl

/-- No life counts more than `n`. -/
theorem Lives.length_le (hn : 0 < n) (h : Lives period n (l :: ls)) : l.length ≤ n := by
  cases h with
  | create => exact hn
  | add h hroom =>
      rw [List.length_append, List.length_singleton]
      omega

/-- An event that is added leaves the first one the first. -/
theorem Lives.add_head {c : Nat} {m : List Nat} (h : Lives period n (l :: ls))
    (hl : l ++ [t] = c :: m) : ∃ m', l = c :: m' ∧ m = m' ++ [t] := by
  cases l with
  | nil => exact absurd rfl h.ne_nil
  | cons d m' =>
      obtain ⟨rfl, rfl⟩ := List.cons.inj hl
      exact ⟨m', rfl, rfl⟩

/-- The first event of a life is its earliest. -/
theorem Lives.head_le {c : Nat} {m : List Nat} (h : Lives period n ((c :: m) :: ls)) :
    ∀ x ∈ c :: m, c ≤ x := by
  -- induction on how the lives came about
  generalize hL : (c :: m) :: ls = L at h
  induction h generalizing m with
  | none => cases hL
  | create =>
      cases hL
      simp
  | add h hroom hlate ih =>
      obtain ⟨hl, rfl⟩ := List.cons.inj hL
      obtain ⟨m', rfl, rfl⟩ := h.add_head hl.symm
      intro x hx
      rw [← List.cons_append] at hx
      rcases List.mem_append.mp hx with hx | hx
      · exact ih rfl x hx
      · rw [List.mem_singleton.mp hx]
        exact hlate c List.mem_cons_self

/-! ## The lives before -/

/-- What lies behind a life that began at `c`. -/
structure Behind (period n c : Nat) (ls : List (List Nat)) : Prop where
  before : ∀ x ∈ ls.flatten, x < c
  few : ∀ a, c < a + period → since a ls.flatten ≤ n - 1
  apart : ∀ l ∈ ls, ∀ d, l.head? = some d → d + period ≤ c

/-- Of the life before, whose first event lies a period back, at most `n - 1`
    events are less than a period old. -/
theorem Behind.create {d : Nat} {m : List Nat} (hn : 0 < n) (h : Lives period n ((d :: m) :: ls))
    (hb : Behind period n d ls) (hover : Over period (d :: m) t) :
    Behind period n t ((d :: m) :: ls) := by
  obtain ⟨c, hc, hct, hlt⟩ := hover
  obtain rfl : d = c := Option.some.inj hc
  refine ⟨fun x hx => ?_, fun a ha => ?_, fun l hl c hc => ?_⟩
  · rw [List.flatten_cons, List.mem_append] at hx
    rcases hx with hx | hx
    · have := hlt x hx
      omega
    · have := hb.before x hx
      omega
  -- the lives behind `d` are over by then; of this one, its first event is
  · have hold : since a ls.flatten = 0 := since_eq_zero fun x hx => by
      have := hb.before x hx
      omega
    have hlast : since a (d :: m) ≤ m.length := since_cons_lt (by omega) m
    have hlen : m.length + 1 ≤ n := h.length_le hn
    rw [List.flatten_cons, since_append]
    omega
  · rcases List.mem_cons.mp hl with rfl | hl
    · rw [List.head?_cons, Option.some.injEq] at hc
      omega
    · have := hb.apart l hl c hc
      omega

/-- The older lives lie behind the one that is going on. -/
theorem Lives.behind (hn : 0 < n) {c : Nat} {m : List Nat}
    (h : Lives period n ((c :: m) :: ls)) : Behind period n c ls := by
  generalize hL : (c :: m) :: ls = L at h
  induction h generalizing c m ls with
  | none => cases hL
  | @create older t h hover ih =>
      cases hL
      cases older with
      | nil => exact ⟨nofun, fun a _ => Nat.zero_le _, nofun⟩
      | cons l ls =>
          cases l with
          | nil => exact absurd rfl h.ne_nil
          -- the life that was going on joins those behind
          | cons d m' => exact Behind.create hn h (ih rfl) (hover _ rfl)
  | add h hroom hlate ih =>
      obtain ⟨hl, rfl⟩ := List.cons.inj hL
      obtain ⟨m', rfl, rfl⟩ := h.add_head hl.symm
      exact ih rfl

/-! ## Intervals -/

/-- An interval that ends before a life begins has none of its events. -/
theorem Lives.within_eq_zero {c : Nat} {m : List Nat} (h : Lives period n ((c :: m) :: ls))
    (hac : a + period ≤ c) : within period a (c :: m) = 0 := by
  refine List.countP_eq_zero.mpr fun x hx => ?_
  have := h.head_le x hx
  simp only [Bool.and_eq_true, decide_eq_true_eq]
  omega

/-- From the beginning of a life on, at most `n` events lie within a period. -/
theorem Lives.within_first (hn : 0 < n) {L : List (List Nat)} (h : Lives period n L) :
    ∀ l ∈ L, ∀ c, l.head? = some c → within period c L.flatten ≤ n := by
  induction L with
  | nil => exact nofun
  | cons k ls ih =>
      intro l hl c hc
      cases k with
      | nil => exact absurd rfl h.ne_nil
      | cons d m =>
          have hb := h.behind hn
          rw [List.flatten_cons, within_append]
          rcases List.mem_cons.mp hl with rfl | hl
          · -- the older events lie before
            obtain rfl : d = c := Option.some.inj hc
            have hold := since_eq_zero hb.before
            have := within_le_since period d ls.flatten
            have := within_le_length period d (d :: m)
            have := h.length_le hn
            omega
          · -- the newer ones lie after
            rw [h.within_eq_zero (hb.apart l hl c hc), Nat.zero_add]
            exact ih h.tail l hl c hc

/-- Wherever a period is laid, at most `2 * n - 1` events lie within. -/
theorem Lives.within_le (hn : 0 < n) {L : List (List Nat)} (h : Lives period n L) (a : Nat) :
    within period a L.flatten ≤ 2 * n - 1 := by
  induction L with
  | nil => exact Nat.zero_le _
  | cons k ls ih =>
      cases k with
      | nil => exact absurd rfl h.ne_nil
      | cons c m =>
          rw [List.flatten_cons, within_append]
          by_cases hac : a + period ≤ c
          · rw [h.within_eq_zero hac, Nat.zero_add]
            exact ih h.tail
          · have hfew := (h.behind hn).few a (by omega)
            have := within_le_since period a ls.flatten
            have := within_le_length period a (c :: m)
            have := h.length_le hn
            omega

end

end Webstore.Expiry
