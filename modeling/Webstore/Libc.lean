/-
  Webstore.Libc

  The parts of the C language and its standard library that the programs
  lean on: byte strings, character classes of the C locale, number parsing
  and printing, the conversions between integer types, and what a run can
  die of.

  A `char *` that is read as a string is a byte list without its terminating
  NUL; `cString` is what such a reader sees of a buffer that may hold one.
  `int` is 32 bits, `long` and `size_t` are 64 bits.
-/
import Mathlib.Data.Nat.Digits.Defs
import Mathlib.Data.List.TakeWhile
import Mathlib.Tactic.IntervalCases
import Mathlib.Tactic.Ring

namespace Webstore

/-- A run of bytes. -/
abbrev Bytes := List UInt8

/-- How a C program can fail: an access outside an object, a failed
    `assert`, or a call of `exit`. -/
inductive Fault where
  | outOfBounds
  | assertion
  | exit (code : Nat)
deriving DecidableEq, Repr

namespace Libc

@[simp] theorem ok_bind {ε α β : Type} (a : α) (f : α → Except ε β) :
    ((Except.ok a : Except ε α) >>= f) = f a := rfl

@[simp] theorem error_bind {ε α β : Type} (e : ε) (f : α → Except ε β) :
    ((Except.error e : Except ε α) >>= f) = .error e := rfl

@[simp] theorem pure_ok {ε α : Type} (a : α) : (pure a : Except ε α) = .ok a := rfl

@[simp] theorem throw_error {ε α : Type} (e : ε) : (throw e : Except ε α) = .error e := rfl

/-- The bytes of a string literal. -/
def ascii (s : String) : Bytes := s.toList.map fun c => c.toNat.toUInt8

/-! ## Character classes -/

def isdigit (c : UInt8) : Bool := 48 ≤ c && c ≤ 57

def islower (c : UInt8) : Bool := 97 ≤ c && c ≤ 122

def isupper (c : UInt8) : Bool := 65 ≤ c && c ≤ 90

def isalnum (c : UInt8) : Bool := isdigit c || islower c || isupper c

def isxdigit (c : UInt8) : Bool := isdigit c || (97 ≤ c && c ≤ 102) || (65 ≤ c && c ≤ 70)

def isspace (c : UInt8) : Bool := c == 32 || (9 ≤ c && c ≤ 13)

def tolower (c : UInt8) : UInt8 := if isupper c then c + 32 else c

theorem isxdigit_zero : isxdigit 0 = false := by decide

theorem isxdigit_ne_zero {c : UInt8} (h : isxdigit c = true) : c ≠ 0 := by
  rintro rfl
  simp [isxdigit_zero] at h

/-- A property of bytes is a property of the 256 of them. -/
theorem forall_byte {p : UInt8 → Prop} (h : ∀ n : Fin 256, p (UInt8.ofFin n)) (c : UInt8) :
    p c := by
  simpa using h c.toFin

theorem isxdigit_tolower (c : UInt8) : isxdigit (tolower c) = isxdigit c :=
  forall_byte (p := fun c => isxdigit (tolower c) = isxdigit c) (by decide +kernel) c

theorem isspace_of_isdigit {c : UInt8} : isdigit c = true → isspace c = false :=
  forall_byte (p := fun c => isdigit c = true → isspace c = false) (by decide +kernel) c

/-! ## Strings -/

/-- The bytes before the first NUL. -/
def cString (b : Bytes) : Bytes := b.takeWhile (· ≠ 0)

/-- No byte is NUL. -/
def NulFree (b : Bytes) : Prop := ∀ c ∈ b, c ≠ 0

theorem cString_of_nulFree {b : Bytes} (h : NulFree b) : cString b = b :=
  List.takeWhile_eq_self_iff.mpr fun c hc => by simpa using h c hc

theorem nulFree_cString (b : Bytes) : NulFree (cString b) := by
  intro c hc
  simpa using List.mem_takeWhile_imp hc

@[simp] theorem cString_cString (b : Bytes) : cString (cString b) = cString b :=
  cString_of_nulFree (nulFree_cString b)

/-- A terminator cuts off what follows. -/
theorem cString_append_nul {b : Bytes} (h : NulFree b) (t : Bytes) : cString (b ++ 0 :: t) = b := by
  unfold cString
  rw [List.takeWhile_append_of_pos (fun c hc => by simpa using h c hc)]
  simp

/-- What `snprintf` leaves in a buffer of `n` bytes, without the NUL. -/
def snprintf (n : Nat) (s : Bytes) : Bytes := s.take (n - 1)

/-! ## Buffers -/

/-- Read `b[i]`. -/
def load (b : Bytes) (i : Nat) : Except Fault UInt8 :=
  match b[i]? with
  | some c => .ok c
  | none => .error .outOfBounds

/-- Write `b[i] = c`. -/
def store (b : Bytes) (i : Nat) (c : UInt8) : Except Fault Bytes :=
  if i < b.length then .ok (b.set i c) else .error .outOfBounds

/-- The first `n` bytes of an object, as `memcpy` reads them. -/
def readBytes (b : Bytes) (n : Nat) : Except Fault Bytes :=
  if n ≤ b.length then .ok (b.take n) else .error .outOfBounds

/-- `realloc`: what was there stays as far as it fits, new room is blank. -/
def realloc (b : Bytes) (n : Nat) : Bytes := b.take n ++ List.replicate (n - b.length) 0

/-- `memcpy` to `dst + i`. -/
def memcpy (dst : Bytes) (i : Nat) (src : Bytes) : Except Fault Bytes :=
  if i + src.length ≤ dst.length then .ok (dst.take i ++ src ++ dst.drop (i + src.length))
  else .error .outOfBounds

/-- `strncmp` finds no difference: the strings agree, terminator included, as
    far as the first `n` characters. -/
def strncmpEq (a b : Bytes) (n : Nat) : Bool :=
  (cString a ++ [0]).take n == (cString b ++ [0]).take n

theorem load_eq {b : Bytes} {i : Nat} (h : i < b.length) : load b i = .ok b[i] := by
  simp [load, List.getElem?_eq_getElem h]

theorem store_eq {b : Bytes} {i : Nat} (h : i < b.length) (c : UInt8) :
    store b i c = .ok (b.set i c) := if_pos h

theorem readBytes_eq {b : Bytes} {n : Nat} (h : n ≤ b.length) : readBytes b n = .ok (b.take n) :=
  if_pos h

/-- Appending to a buffer that is made to fit. -/
theorem memcpy_realloc (b src : Bytes) :
    memcpy (realloc b (b.length + src.length)) b.length src = .ok (b ++ src) := by
  have hroom : realloc b (b.length + src.length) = b ++ List.replicate src.length 0 := by
    rw [realloc, List.take_of_length_le (by omega), Nat.add_sub_cancel_left]
  have hfit : b.length + src.length ≤ (b ++ List.replicate src.length 0).length := by simp
  rw [hroom, memcpy, if_pos hfit, List.take_left' rfl, List.drop_eq_nil_of_le (by simp),
    List.append_nil]

/-- A comparison over the length of the second string is a test for a prefix. -/
theorem strncmpEq_iff {a b : Bytes} (ha : NulFree a) (hb : NulFree b) :
    strncmpEq a b b.length = true ↔ b <+: a := by
  unfold strncmpEq
  rw [cString_of_nulFree ha, cString_of_nulFree hb, List.take_left' rfl, beq_iff_eq]
  constructor
  · intro h
    have hle : b.length ≤ a.length := by
      by_contra hlt
      -- a shorter string would have its terminator inside `b`
      have hall : (a ++ [0]).take b.length = a ++ [0] :=
        List.take_of_length_le (by simp; omega)
      rw [hall] at h
      exact hb 0 (by rw [← h]; simp) rfl
    rw [List.take_append_of_le_length hle] at h
    exact h ▸ List.take_prefix _ _
  · intro h
    rw [List.take_append_of_le_length h.length_le]
    exact (List.prefix_iff_eq_take.mp h).symm

/-! ## Integer conversions -/

/-- `LONG_MAX`. -/
def longMax : Nat := 2 ^ 63 - 1

/-- Conversion to `int`. -/
def toInt (n : Int) : Int := n.bmod (2 ^ 32)

/-- Conversion to `size_t`. -/
def toSizeT (n : Int) : Nat := (n % 2 ^ 64).toNat

theorem toInt_of_range {n : Int} (h₁ : -2 ^ 31 ≤ n) (h₂ : n < 2 ^ 31) : toInt n = n := by
  unfold toInt
  exact Int.bmod_eq_of_le_mul_two (by omega) (by omega)

theorem toSizeT_of_range {n : Nat} (h : n < 2 ^ 64) : toSizeT n = n := by
  unfold toSizeT
  omega

/-! ## Numbers as text -/

/-- The value of a decimal digit character. -/
def digitVal (c : UInt8) : Nat := c.toNat - 48

/-- The decimal spelling of `n`. -/
def decimal (n : Nat) : Bytes :=
  if n = 0 then [48] else ((Nat.digits 10 n).reverse).map fun d => (48 + d).toUInt8

/-- The spelling `%ld` and Redis give an integer. -/
def ll2string (n : Int) : Bytes :=
  if n < 0 then 45 :: decimal n.natAbs else decimal n.natAbs

/-- Read on through the leading digits. -/
def readDigits (acc : Nat) : Bytes → Nat
  | [] => acc
  | c :: cs => if isdigit c then readDigits (acc * 10 + digitVal c) cs else acc

/-- The integer at the start of `s`: blanks, a sign, digits. -/
def readInt (s : Bytes) : Int :=
  match s.dropWhile isspace with
  | 45 :: cs => -(readDigits 0 cs : Int)
  | 43 :: cs => readDigits 0 cs
  | cs => readDigits 0 cs

/-- `atol`: the value saturates at the ends of `long`. -/
def atol (s : Bytes) : Int := max (-2 ^ 63) (min (2 ^ 63 - 1) (readInt s))

/-- `atoi`: `atol` cut down to an `int`. -/
def atoi (s : Bytes) : Int := toInt (atol s)

/-- The 64-bit integer that `s` spells in canonical form. -/
def string2ll (s : Bytes) : Option Int :=
  if -2 ^ 63 ≤ readInt s ∧ readInt s < 2 ^ 63 ∧ ll2string (readInt s) = s then some (readInt s)
  else none

theorem digit_toUInt8 {d : Nat} (h : d < 10) :
    isdigit (48 + d).toUInt8 = true ∧ digitVal (48 + d).toUInt8 = d := by
  interval_cases d <;> decide

/-- Digits that are read in order are the number they spell. -/
theorem readDigits_map {ds : List Nat} (h : ∀ d ∈ ds, d < 10) (acc : Nat) :
    readDigits acc (ds.map fun d => (48 + d).toUInt8) =
      acc * 10 ^ ds.length + Nat.ofDigits 10 ds.reverse := by
  induction ds generalizing acc with
  | nil => simp [readDigits]
  | cons d ds ih =>
      obtain ⟨hd, hds⟩ := List.forall_mem_cons.mp h
      obtain ⟨h₁, h₂⟩ := digit_toUInt8 hd
      simp only [List.map_cons, readDigits, h₁, if_true, h₂, ih hds, List.reverse_cons,
        Nat.ofDigits_append, Nat.ofDigits_singleton, List.length_reverse, List.length_cons]
      ring

/-- Reading a decimal spelling gives the number back. -/
theorem readDigits_decimal (n : Nat) : readDigits 0 (decimal n) = n := by
  unfold decimal
  split
  · subst n
    decide
  · rw [readDigits_map, List.reverse_reverse, Nat.ofDigits_digits, Nat.zero_mul, Nat.zero_add]
    intro d hd
    exact Nat.digits_lt_base (by decide) (List.mem_reverse.mp hd)

/-- A number is spelled with digits only. -/
theorem decimal_digits (n : Nat) : ∀ c ∈ decimal n, isdigit c = true := by
  unfold decimal
  split
  · rw [List.forall_mem_singleton]
    decide
  · intro c hc
    obtain ⟨d, hd, rfl⟩ := List.mem_map.mp hc
    exact (digit_toUInt8 (Nat.digits_lt_base (by decide) (List.mem_reverse.mp hd))).1

theorem nulFree_decimal (n : Nat) : NulFree (decimal n) := by
  rintro c hc rfl
  simpa [isxdigit_zero, isdigit] using decimal_digits n 0 hc

theorem nulFree_ll2string (n : Int) : NulFree (ll2string n) := by
  unfold ll2string
  split
  · exact List.forall_mem_cons.mpr ⟨by decide, nulFree_decimal _⟩
  · exact nulFree_decimal _

/-- Different numbers are spelled differently. -/
theorem decimal_injective {m n : Nat} (h : decimal m = decimal n) : m = n := by
  rw [← readDigits_decimal m, h, readDigits_decimal]

/-- Before digits there is neither a blank nor a sign to skip. -/
theorem readInt_of_digits {s : Bytes} (h : ∀ c ∈ s, isdigit c = true) :
    readInt s = readDigits 0 s := by
  have hdrop : s.dropWhile isspace = s := by
    cases s with
    | nil => rfl
    | cons c cs =>
        rw [List.dropWhile_cons_of_neg]
        simp [isspace_of_isdigit (h c List.mem_cons_self)]
  unfold readInt
  rw [hdrop]
  split
  · exact absurd (h 45 (by simp)) (by decide)
  · exact absurd (h 43 (by simp)) (by decide)
  · rfl

theorem readInt_decimal (n : Nat) : readInt (decimal n) = n := by
  rw [readInt_of_digits (decimal_digits n), readDigits_decimal]

/-- `string2ll` reads back what `ll2string` wrote. -/
theorem string2ll_decimal {n : Nat} (h : n < 2 ^ 63) : string2ll (decimal n) = some (n : Int) := by
  unfold string2ll
  rw [readInt_decimal, if_pos]
  refine ⟨by omega, by omega, ?_⟩
  simp [ll2string]

theorem ll2string_natCast (n : Nat) : ll2string n = decimal n := by
  simp [ll2string]

theorem atoi_decimal {n : Nat} (h : n < 2 ^ 31) : atoi (decimal n) = n := by
  unfold atoi atol
  rw [readInt_decimal, toInt_of_range] <;> omega

end Libc

end Webstore
