/-
  Webstore.Libc.Hex

  `%02x`: bytes as pairs of lower-case hexadecimal digits, and back.
-/
import Webstore.Libc

namespace Webstore

namespace Libc

/-- The digit of a number below 16. -/
def hexDigit (n : Nat) : UInt8 := if n < 10 then (48 + n).toUInt8 else (87 + n).toUInt8

/-- `%02x` of an unsigned char. -/
def hexByte (b : UInt8) : Bytes := [hexDigit (b.toNat / 16), hexDigit (b.toNat % 16)]

/-- A byte string, two digits a byte. -/
def hex (b : Bytes) : Bytes := b.flatMap hexByte

/-- The value of a lower-case digit. -/
def unhexDigit (c : UInt8) : Option Nat :=
  if 48 ≤ c ∧ c ≤ 57 then some (c.toNat - 48)
  else if 97 ≤ c ∧ c ≤ 102 then some (c.toNat - 87)
  else none

/-- The bytes that pairs of digits spell. -/
def unhex : Bytes → Option Bytes
  | [] => some []
  | [_] => none
  | c :: d :: s => do
      let x ← unhexDigit c
      let y ← unhexDigit d
      let b ← unhex s
      return (16 * x + y).toUInt8 :: b

/-- A digit is hexadecimal, in lower case, and has its value. -/
theorem hexDigit_spec {n : Nat} (h : n < 16) :
    isxdigit (hexDigit n) = true ∧ tolower (hexDigit n) = hexDigit n ∧
      unhexDigit (hexDigit n) = some n := by
  interval_cases n <;> decide

/-- A byte is spelled with lower-case digits. -/
theorem hexByte_spec (b : UInt8) :
    ∀ c ∈ hexByte b, isxdigit c = true ∧ tolower c = c := by
  have hb := b.toNat_lt
  have hhigh := hexDigit_spec (n := b.toNat / 16) (by omega)
  have hlow := hexDigit_spec (n := b.toNat % 16) (by omega)
  intro c hc
  rcases List.mem_cons.mp hc with rfl | hc
  · exact ⟨hhigh.1, hhigh.2.1⟩
  · rw [List.mem_singleton.mp hc]
    exact ⟨hlow.1, hlow.2.1⟩

@[simp] theorem length_hexByte (b : UInt8) : (hexByte b).length = 2 := rfl

@[simp] theorem hex_nil : hex [] = [] := rfl

@[simp] theorem hex_cons (x : UInt8) (b : Bytes) : hex (x :: b) = hexByte x ++ hex b := rfl

theorem hex_append (a b : Bytes) : hex (a ++ b) = hex a ++ hex b := List.flatMap_append

@[simp] theorem length_hex (b : Bytes) : (hex b).length = 2 * b.length := by
  induction b with
  | nil => rfl
  | cons x b ih =>
      rw [hex_cons, List.length_append, length_hexByte, ih, List.length_cons]
      omega

theorem hex_spec {b : Bytes} {c : UInt8} (h : c ∈ hex b) : isxdigit c = true ∧ tolower c = c := by
  obtain ⟨x, -, hx⟩ := List.mem_flatMap.mp h
  exact hexByte_spec x c hx

theorem nulFree_hex (b : Bytes) : NulFree (hex b) := fun _ hc => isxdigit_ne_zero (hex_spec hc).1

theorem map_tolower_hex (b : Bytes) : (hex b).map tolower = hex b := by
  conv_rhs => rw [← List.map_id (hex b)]
  exact List.map_congr_left fun c hc => (hex_spec hc).2

/-- The bytes can be read off their spelling. -/
theorem unhex_hex (b : Bytes) : unhex (hex b) = some b := by
  induction b with
  | nil => rfl
  | cons x b ih =>
      have hx := x.toNat_lt
      have hhigh := (hexDigit_spec (n := x.toNat / 16) (by omega)).2.2
      have hlow := (hexDigit_spec (n := x.toNat % 16) (by omega)).2.2
      have hbyte : (16 * (x.toNat / 16) + x.toNat % 16).toUInt8 = x := by
        rw [Nat.div_add_mod]
        exact UInt8.ofNat_toNat
      simp only [hex_cons, hexByte, List.cons_append, List.nil_append, unhex, hhigh, hlow, ih,
        Option.bind_eq_bind, Option.bind_some, Option.pure_def, hbyte]

end Libc

end Webstore
