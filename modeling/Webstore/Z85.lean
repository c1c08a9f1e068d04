/-
  Webstore.Z85

  The Z85 codec of the clients.  Sources are byte lists from the pointer on;
  destinations are whole buffers with an offset, and every read and write is
  checked against the object it goes to.  `size_t` arithmetic wraps.
-/
import Webstore.Libc

namespace Webstore

open Webstore.Libc

namespace Z85

/-- `DIV85`: division by 85 as a multiplication. -/
def div85 (number : UInt32) : UInt32 :=
  ((3233857729 * number.toUInt64) >>> 32).toUInt32 >>> 6

/-- The alphabet of the clients. -/
def base85 : Bytes :=
  ascii "0123456789" ++
  ascii "abcdefghij" ++
  ascii "klmnopqrst" ++
  ascii "uvwxyzABCD" ++
  ascii "EFGHIJKLMN" ++
  ascii "OPQRSTUVWX" ++
  ascii "YZ.-:+=^!/" ++
  ascii "*?&<>()[]\x7b" ++
  ascii "\x7d@%$#"

/-- The inverse of the alphabet, from the blank on. -/
def base256 : Bytes := [
  0x00, 0x44, 0x00, 0x54, 0x53, 0x52, 0x48, 0x00,
  0x4B, 0x4C, 0x46, 0x41, 0x00, 0x3F, 0x3E, 0x45,
  0x00, 0x01, 0x02, 0x03, 0x04, 0x05, 0x06, 0x07,
  0x08, 0x09, 0x40, 0x00, 0x49, 0x42, 0x4A, 0x47,
  0x51, 0x24, 0x25, 0x26, 0x27, 0x28, 0x29, 0x2A,
  0x2B, 0x2C, 0x2D, 0x2E, 0x2F, 0x30, 0x31, 0x32,
  0x33, 0x34, 0x35, 0x36, 0x37, 0x38, 0x39, 0x3A,
  0x3B, 0x3C, 0x3D, 0x4D, 0x00, 0x4E, 0x43, 0x00,
  0x00, 0x0A, 0x0B, 0x0C, 0x0D, 0x0E, 0x0F, 0x10,
  0x11, 0x12, 0x13, 0x14, 0x15, 0x16, 0x17, 0x18,
  0x19, 0x1A, 0x1B, 0x1C, 0x1D, 0x1E, 0x1F, 0x20,
  0x21, 0x22, 0x23, 0x4F, 0x00, 0x50, 0x00, 0x00]

/-- `dst[0..4]` from one frame of four bytes. -/
def encodeFrame (dest : Bytes) (dst : Nat) (value : UInt32) : Except Fault Bytes := do
  let value2 := div85 value
  let dest ← store dest (dst + 4) (← load base85 (value - value2 * 85).toNat)
  let value := value2
  let value2 := div85 value
  let dest ← store dest (dst + 3) (← load base85 (value - value2 * 85).toNat)
  let value := value2
  let value2 := div85 value
  let dest ← store dest (dst + 2) (← load base85 (value - value2 * 85).toNat)
  let value := value2
  let value2 := div85 value
  let dest ← store dest (dst + 1) (← load base85 (value - value2 * 85).toNat)
  store dest dst (← load base85 value2.toNat)

/-- `Z85_encode_unsafe`: `n` is how far `sourceEnd` lies ahead, and the loop
    runs until it is reached exactly. -/
def encodeUnsafe (n : Int) (dest : Bytes) (dst : Nat) : Bytes → Except Fault (Bytes × Nat)
  | a :: b :: c :: d :: src =>
      if n = 0 then .ok (dest, dst)
      else do
        let value :=
          (a.toUInt32 <<< 24) ||| (b.toUInt32 <<< 16) ||| (c.toUInt32 <<< 8) ||| d.toUInt32
        let dest ← encodeFrame dest dst value
        encodeUnsafe (n - 4) dest (dst + 5) src
  | _ => if n = 0 then .ok (dest, dst) else .error .outOfBounds

/-- The index of a character in `base256`. -/
def charIndex (c : UInt8) : Nat := ((c - 32) &&& 127).toNat

/-- `dst[0..3]` from one frame of five characters. -/
def decodeFrame (dest : Bytes) (dst : Nat) (a b c d e : UInt8) : Except Fault Bytes := do
  let value := (← load base256 (charIndex a)).toUInt32
  let value := value * 85 + (← load base256 (charIndex b)).toUInt32
  let value := value * 85 + (← load base256 (charIndex c)).toUInt32
  let value := value * 85 + (← load base256 (charIndex d)).toUInt32
  let value := value * 85 + (← load base256 (charIndex e)).toUInt32
  let dest ← store dest dst (value >>> 24).toUInt8
  let dest ← store dest (dst + 1) (value >>> 16).toUInt8
  let dest ← store dest (dst + 2) (value >>> 8).toUInt8
  store dest (dst + 3) value.toUInt8

/-- `Z85_decode_unsafe`. -/
def decodeUnsafe (n : Int) (dest : Bytes) (dst : Nat) : Bytes → Except Fault (Bytes × Nat)
  | a :: b :: c :: d :: e :: src =>
      if n = 0 then .ok (dest, dst)
      else do
        let dest ← decodeFrame dest dst a b c d e
        decodeUnsafe (n - 5) dest (dst + 4) src
  | _ => if n = 0 then .ok (dest, dst) else .error .outOfBounds

/-- `Z85_encode_bound`. -/
def encodeBound (size : Nat) : Nat := size * 5 % 2 ^ 64 / 4

/-- `Z85_decode_bound`. -/
def decodeBound (size : Nat) : Nat := size * 4 % 2 ^ 64 / 5

/-- `Z85_encode_with_padding_bound`. -/
def encodeWithPaddingBound (size : Nat) : Nat :=
  if size = 0 then 0
  else
    let size := encodeBound size
    (size + (5 - size % 5) % 5 + 1) % 2 ^ 64

/-- `Z85_decode_with_padding_bound`. -/
def decodeWithPaddingBound (source : Bytes) (size : Nat) : Except Fault Nat := do
  if size = 0 then return 0
  let pad := (← load source 0) - 48
  if pad = 0 ∨ 4 < pad then return 0
  let bound := decodeBound (size - 1)
  if bound + pad.toNat < 4 then return 0
  return bound + pad.toNat - 4

/-- `Z85_encode_with_padding`; the cases of its switch fall through. -/
def encodeWithPadding (source dest : Bytes) (inputSize : Nat) : Except Fault (Bytes × Nat) := do
  let tailBytes := inputSize % 4
  if inputSize = 0 then return (dest, 0)
  let dest ← store dest 0 (if tailBytes = 0 then 52 else 48 + tailBytes.toUInt8)
  let (dest, dst) ← encodeUnsafe (inputSize - tailBytes : Nat) dest 1 source
  let tail := source.drop (inputSize - tailBytes)
  let tailBuf : Bytes := [0, 0, 0, 0]
  let tailBuf ← if tailBytes = 3 then store tailBuf 2 (← load tail 2) else pure tailBuf
  let tailBuf ← if 2 ≤ tailBytes then store tailBuf 1 (← load tail 1) else pure tailBuf
  if 1 ≤ tailBytes then
    let tailBuf ← store tailBuf 0 (← load tail 0)
    encodeUnsafe 4 dest dst tailBuf
  else return (dest, dst)

/-- A `char` as the clients' compiler reads it. -/
def charToInt (c : UInt8) : Int := if c < 128 then c.toNat else c.toNat - 256

/-- The switch of `Z85_decode_with_padding`; its cases fall through. -/
def storeTail (tailBytes : Nat) (tailBuf dest : Bytes) (dst : Nat) : Except Fault Bytes := do
  let dest ← if 4 ≤ tailBytes then store dest (dst + 3) (← load tailBuf 3) else pure dest
  let dest ← if 3 ≤ tailBytes then store dest (dst + 2) (← load tailBuf 2) else pure dest
  let dest ← if 2 ≤ tailBytes then store dest (dst + 1) (← load tailBuf 1) else pure dest
  store dest dst (← load tailBuf 0)

/-- `Z85_decode_with_padding`; asserts are enabled in the shipped build. -/
def decodeWithPadding (source dest : Bytes) (inputSize : Nat) : Except Fault (Bytes × Nat) := do
  if ¬ (inputSize = 0 ∨ (inputSize - 1) % 5 = 0) then throw .assertion
  if inputSize = 0 then return (dest, 0)
  let tailBytes := toSizeT (charToInt (← load source 0) - 48)
  if 3 < toSizeT ((tailBytes : Int) - 1) then throw .assertion
  let (dest, dst) ←
    if inputSize ≠ 6 then decodeUnsafe ((inputSize : Int) - 6) dest 0 source.tail
    else pure (dest, 0)
  let (tailBuf, _) ← decodeUnsafe 5 [0, 0, 0, 0] 0 (source.drop (inputSize - 5))
  let dest ← storeTail tailBytes tailBuf dest dst
  return (dest, dst + tailBytes)

end Z85

end Webstore
