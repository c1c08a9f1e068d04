/-
  Webstore.Sockaddr.Ntop

  What `inet_ntop` prints when there are no two groups of zeros in a row that
  it could leave out: four decimal numbers with dots between them, or eight
  hexadecimal ones with colons.
-/
import Webstore.Libc.Hex
import Webstore.Sockaddr

namespace Webstore

open Webstore.Libc

/-! ## Pieces with a separator between them -/

section
variable {s : UInt8} {ls : List Bytes}

theorem mem_intercalate {c : UInt8} (h : c ∈ [s].intercalate ls) : c = s ∨ ∃ l ∈ ls, c ∈ l := by
  induction ls with
  | nil => cases h
  | cons l ls ih =>
      cases ls with
      | nil => exact .inr ⟨l, List.mem_singleton_self l, by simpa using h⟩
      | cons l' ls =>
          rw [List.intercalate_cons_cons, List.append_assoc, List.mem_append, List.mem_append] at h
          rcases h with h | h | h
          · exact .inr ⟨l, List.mem_cons_self, h⟩
          · exact .inl (List.mem_singleton.mp h)
          · rcases ih h with h | ⟨m, hm, h⟩
            · exact .inl h
            · exact .inr ⟨m, List.mem_cons_of_mem _ hm, h⟩

theorem length_intercalate {k : Nat} (hne : ls ≠ []) (h : ∀ l ∈ ls, l.length ≤ k) :
    ([s].intercalate ls).length + 1 ≤ (k + 1) * ls.length := by
  induction ls with
  | nil => exact absurd rfl hne
  | cons l ls ih =>
      obtain ⟨hl, hls⟩ := List.forall_mem_cons.mp h
      cases ls with
      | nil => simpa using hl
      | cons l' ls =>
          have := ih (List.cons_ne_nil _ _) hls
          rw [List.intercalate_cons_cons, List.length_append, List.length_append,
            List.length_singleton, List.length_cons (a := l), Nat.mul_succ]
          omega

end

/-! ## Numbers -/

/-- `%x` of two bytes. -/
def hexGroup (b c : UInt8) : Bytes :=
  (hexByte b ++ [hexDigit (c.toNat / 16)]).dropWhile (· == 48) ++ [hexDigit (c.toNat % 16)]

/-- The number that hexadecimal digits spell. -/
def hexValue (s : Bytes) : Nat := s.foldl (fun n c => 16 * n + (unhexDigit c).getD 0) 0

/-- Zeros in front do not count. -/
theorem hexValue_dropWhile (s t : Bytes) :
    hexValue (s.dropWhile (· == 48) ++ t) = hexValue (s ++ t) := by
  induction s with
  | nil => rfl
  | cons c s ih =>
      rw [List.dropWhile_cons]
      split
      · next hc =>
          obtain rfl : c = 48 := by simpa using hc
          exact ih
      · rfl

theorem hexValue_hexGroup (b c : UInt8) : hexValue (hexGroup b c) = 256 * b.toNat + c.toNat := by
  have hb := b.toNat_lt
  have hc := c.toNat_lt
  have h₁ := (hexDigit_spec (n := b.toNat / 16) (by omega)).2.2
  have h₂ := (hexDigit_spec (n := b.toNat % 16) (by omega)).2.2
  have h₃ := (hexDigit_spec (n := c.toNat / 16) (by omega)).2.2
  have h₄ := (hexDigit_spec (n := c.toNat % 16) (by omega)).2.2
  rw [hexGroup, hexValue_dropWhile]
  simp only [hexValue, hexByte, List.cons_append, List.nil_append, List.foldl_cons, List.foldl_nil,
    h₁, h₂, h₃, h₄, Option.getD_some]
  omega

theorem hexGroup_inj {b c b' c' : UInt8} (h : hexGroup b c = hexGroup b' c') : b = b' ∧ c = c' := by
  have hvalue := congrArg hexValue h
  rw [hexValue_hexGroup, hexValue_hexGroup] at hvalue
  have hc := c.toNat_lt
  have hc' := c'.toNat_lt
  exact ⟨UInt8.toNat_inj.mp (by omega), UInt8.toNat_inj.mp (by omega)⟩

theorem hexGroup_digits {b c x : UInt8} (h : x ∈ hexGroup b c) : isxdigit x = true := by
  have hc := c.toNat_lt
  rcases List.mem_append.mp h with h | h
  · rcases List.mem_append.mp ((List.dropWhile_sublist _).subset h) with h | h
    · exact (hexByte_spec b x h).1
    · rw [List.mem_singleton.mp h]
      exact (hexDigit_spec (by omega)).1
  · rw [List.mem_singleton.mp h]
    exact (hexDigit_spec (by omega)).1

theorem length_hexGroup_le (b c : UInt8) : (hexGroup b c).length ≤ 4 := by
  have hdrop := (List.dropWhile_sublist (· == 48)
    (l := hexByte b ++ [hexDigit (c.toNat / 16)])).length_le
  simp only [List.length_append, length_hexByte, List.length_singleton] at hdrop
  rw [hexGroup, List.length_append, List.length_singleton]
  omega

/-- A byte has at most three decimal digits. -/
theorem length_decimal_le (b : UInt8) : (decimal b.toNat).length ≤ 3 :=
  forall_byte (p := fun b => (decimal b.toNat).length ≤ 3) (by decide +kernel) b

/-- The groups of an address. -/
def hexGroups : Bytes → List Bytes
  | b :: c :: a => hexGroup b c :: hexGroups a
  | _ => []

theorem exists_pair {n : Nat} {a : Bytes} (h : a.length = 2 * (n + 1)) :
    ∃ b c rest, a = b :: c :: rest ∧ rest.length = 2 * n := by
  obtain ⟨b, a, rfl⟩ := List.exists_cons_of_length_eq_add_one (n := 2 * n + 1) (by omega)
  rw [List.length_cons] at h
  obtain ⟨c, a, rfl⟩ := List.exists_cons_of_length_eq_add_one (n := 2 * n) (l := a) (by omega)
  rw [List.length_cons] at h
  exact ⟨b, c, a, rfl, by omega⟩

theorem length_hexGroups {n : Nat} {a : Bytes} (h : a.length = 2 * n) :
    (hexGroups a).length = n := by
  induction n generalizing a with
  | zero =>
      obtain rfl := List.length_eq_zero_iff.mp h
      rfl
  | succ n ih =>
      obtain ⟨b, c, rest, rfl, hrest⟩ := exists_pair h
      rw [hexGroups, List.length_cons, ih hrest]

theorem hexGroups_inj {n : Nat} {a a' : Bytes} (h : a.length = 2 * n) (h' : a'.length = 2 * n)
    (heq : hexGroups a = hexGroups a') : a = a' := by
  induction n generalizing a a' with
  | zero => rw [List.length_eq_zero_iff.mp h, List.length_eq_zero_iff.mp h']
  | succ n ih =>
      obtain ⟨b, c, rest, rfl, hrest⟩ := exists_pair h
      obtain ⟨b', c', rest', rfl, hrest'⟩ := exists_pair h'
      obtain ⟨hgroup, htail⟩ := List.cons.inj heq
      obtain ⟨rfl, rfl⟩ := hexGroup_inj hgroup
      rw [ih hrest hrest' htail]

theorem mem_hexGroups {n : Nat} {a l : Bytes} (h : a.length = 2 * n) (hl : l ∈ hexGroups a) :
    ∃ b c, l = hexGroup b c := by
  induction n generalizing a with
  | zero =>
      rw [List.length_eq_zero_iff.mp h] at hl
      cases hl
  | succ n ih =>
      obtain ⟨b, c, rest, rfl, hrest⟩ := exists_pair h
      rcases List.mem_cons.mp hl with rfl | hl
      · exact ⟨b, c, rfl⟩
      · exact ih hrest hl

/-! ## Addresses -/

/-- The pieces of an address and what stands between them. -/
def pieces : Family → Bytes → List Bytes
  | .inet, a => a.map fun b => decimal b.toNat
  | .inet6, a => hexGroups a

def separator : Family → UInt8
  | .inet => 46
  | .inet6 => 58

/-- `inet_ntop`, without leaving anything out. -/
def plainNtop (af : Family) (a : Bytes) : Bytes := [separator af].intercalate (pieces af a)

theorem pieces_digits {af : Family} {a l : Bytes} (h : a.length = af.addrLen)
    (hl : l ∈ pieces af a) : ∀ c ∈ l, isxdigit c = true := by
  intro c hc
  cases af with
  | inet =>
      obtain ⟨b, -, rfl⟩ := List.mem_map.mp hl
      simp [isxdigit, decimal_digits _ c hc]
  | inet6 =>
      obtain ⟨b, b', rfl⟩ := mem_hexGroups (n := 8) h hl
      exact hexGroup_digits hc

theorem separator_not_mem {af : Family} {a l : Bytes} (h : a.length = af.addrLen)
    (hl : l ∈ pieces af a) : separator af ∉ l := by
  intro hmem
  have hdigit := pieces_digits h hl _ hmem
  cases af <;> exact absurd hdigit (by decide)

theorem length_pieces {af : Family} {a : Bytes} (h : a.length = af.addrLen) :
    (pieces af a).length = if af = .inet then 4 else 8 := by
  cases af with
  | inet => exact (List.length_map _).trans h
  | inet6 => exact length_hexGroups (n := 8) h

theorem pieces_ne_nil {af : Family} {a : Bytes} (h : a.length = af.addrLen) : pieces af a ≠ [] := by
  intro hnil
  have hlen := length_pieces h
  rw [hnil, List.length_nil] at hlen
  split at hlen <;> cases hlen

/-- What stands in the text of an address. -/
theorem mem_plainNtop {af : Family} {a : Bytes} (h : a.length = af.addrLen) {c : UInt8}
    (hc : c ∈ plainNtop af a) : c = separator af ∨ isxdigit c = true := by
  rcases mem_intercalate hc with hc | ⟨l, hl, hc⟩
  · exact .inl hc
  · exact .inr (pieces_digits h hl c hc)

theorem short_plainNtop {af : Family} {a : Bytes} (h : a.length = af.addrLen) :
    (plainNtop af a).length < af.addrStrLen := by
  cases af with
  | inet =>
      have hpiece : ∀ l ∈ pieces .inet a, l.length ≤ 3 := by
        intro l hl
        obtain ⟨b, -, rfl⟩ := List.mem_map.mp hl
        exact length_decimal_le b
      have hlen := length_intercalate (s := 46) (pieces_ne_nil h) hpiece
      rw [length_pieces h, if_pos rfl] at hlen
      exact hlen
  | inet6 =>
      have hpiece : ∀ l ∈ pieces .inet6 a, l.length ≤ 4 := by
        intro l hl
        obtain ⟨b, c, rfl⟩ := mem_hexGroups (n := 8) h hl
        exact length_hexGroup_le b c
      have hlen := length_intercalate (s := 58) (pieces_ne_nil h) hpiece
      rw [length_pieces h, if_neg (by decide)] at hlen
      exact Nat.lt_of_lt_of_le hlen (by decide)

theorem colon_plainNtop {af : Family} {a : Bytes} (h : a.length = af.addrLen) :
    58 ∈ plainNtop af a ↔ af = .inet6 := by
  cases af with
  | inet =>
      refine iff_of_false (fun hc => ?_) (by decide)
      rcases mem_plainNtop h hc with hc | hc <;> exact absurd hc (by decide)
  | inet6 =>
      refine iff_of_true ?_ rfl
      have hlen := length_pieces h
      rw [if_neg (by decide)] at hlen
      obtain ⟨l, ls, hls⟩ := List.exists_cons_of_ne_nil (pieces_ne_nil h)
      rw [hls, List.length_cons] at hlen
      obtain ⟨l', ls, rfl⟩ := List.exists_cons_of_length_eq_add_one (n := 6) (l := ls) (by omega)
      rw [plainNtop, hls, List.intercalate_cons_cons]
      simp [separator]

theorem plainNtop_injective {af : Family} {a b : Bytes} (ha : a.length = af.addrLen)
    (hb : b.length = af.addrLen) (heq : plainNtop af a = plainNtop af b) : a = b := by
  -- split the texts at the separators
  have hsplit := congrArg (List.splitOn (separator af)) heq
  rw [plainNtop, plainNtop, List.splitOn_intercalate _ (fun l hl => separator_not_mem ha hl)
    (pieces_ne_nil ha), List.splitOn_intercalate _ (fun l hl => separator_not_mem hb hl)
    (pieces_ne_nil hb)] at hsplit
  cases af with
  | inet =>
      have hinj : ∀ x y : UInt8, decimal x.toNat = decimal y.toNat → x = y :=
        fun x y h => UInt8.toNat_inj.mp (decimal_injective h)
      exact (List.map_inj_right hinj).mp hsplit
  | inet6 => exact hexGroups_inj (n := 8) ha hb hsplit

/-- It does what is documented. -/
theorem documented_plainNtop : Documented plainNtop where
  short af a h := short_plainNtop h
  graph af a h c hc := by
    rcases mem_plainNtop h hc with rfl | hdigit
    · cases af <;> decide
    · refine ⟨isxdigit_ne_zero hdigit, ?_⟩
      rintro rfl
      exact absurd hdigit (by decide)
  colon af a h := colon_plainNtop h
  injective af a b ha hb heq := plainNtop_injective ha hb heq

end Webstore
