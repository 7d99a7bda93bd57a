/-!
# Byte strings

A byte string is a list of bytes. This file has the readings of byte strings that the rest of the
library shares:

- `Bytes.ofNat` / `Bytes.toNat`: big-endian numbers of a fixed width,
- `Bytes.hex`: lowercase hexadecimal text,
- `utf8`: the bytes of a text.
-/

namespace Bulletin

abbrev Bytes := List UInt8

namespace Bytes

/-- The `width` low-order bytes of `n`, most significant first. -/
def ofNat : Nat → Nat → Bytes
  | 0, _ => []
  | width + 1, n => ofNat width (n / 256) ++ [UInt8.ofNat n]

/-- The number whose big-endian digits in base 256 are `bytes`. -/
def toNat (bytes : Bytes) : Nat :=
  bytes.foldl (fun n b => 256 * n + b.toNat) 0

theorem length_ofNat (width n : Nat) : (ofNat width n).length = width := by
  induction width generalizing n with
  | zero => rfl
  | succ width ih => simp [ofNat, ih]

theorem toNat_append_singleton (bytes : Bytes) (b : UInt8) :
    toNat (bytes ++ [b]) = 256 * toNat bytes + b.toNat := by
  simp [toNat, List.foldl_append]

/-- The digit of `n % 16` in lowercase hexadecimal. -/
def hexDigit (n : Nat) : Char :=
  Nat.digitChar (n % 16)

/-- Two lowercase hexadecimal digits a byte. -/
def hexDigits (bytes : Bytes) : List Char :=
  bytes.flatMap fun b => [hexDigit (b.toNat / 16), hexDigit b.toNat]

def hex (bytes : Bytes) : String :=
  String.ofList (hexDigits bytes)

end Bytes

def utf8 (text : List Char) : Bytes :=
  text.flatMap String.utf8EncodeChar

/-- The value of a hexadecimal digit, of either case. -/
def hexValue? (c : Char) : Option Nat :=
  if '0' ≤ c ∧ c ≤ '9' then some (c.toNat - 48)
  else if 'a' ≤ c ∧ c ≤ 'f' then some (c.toNat - 87)
  else if 'A' ≤ c ∧ c ≤ 'F' then some (c.toNat - 55)
  else none

end Bulletin
