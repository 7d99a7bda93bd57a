import Bulletin.Bytes
import Bulletin.Format

/-!
# Numbers on the wire

Two binary forms of a number below 2^64:

- a *variable-size number* is one byte below 253, or a marker byte 253, 254 or 255 followed by 2, 4
  or 8 big-endian bytes; it tells its own size (`writeVar`, `readVar`, `varSize`),
- a *sized integer* is 1, 2, 4 or 8 big-endian bytes whose count is known from elsewhere
  (`writeInteger`, `readInteger`).

Writing takes the shortest form; reading takes any.
-/

namespace Bulletin.Wire

/-- Numbers, types and lengths on the wire are below this bound. -/
def limit : Nat := UInt64.size

/-- How many bytes the shortest variable-size form of `n` takes. -/
def varSize (n : Nat) : Nat :=
  if n < 253 then 1 else if n < UInt16.size then 3 else if n < UInt32.size then 5 else 9

/-- The shortest variable-size form of `n`. -/
def writeVar (n : Nat) : Bytes :=
  if n < 253 then [UInt8.ofNat n]
  else if n < UInt16.size then 253 :: Bytes.ofNat 2 n
  else if n < UInt32.size then 254 :: Bytes.ofNat 4 n
  else 255 :: Bytes.ofNat 8 n

/-- How many number bytes follow a first byte that is a marker. -/
def markerWidth? (first : UInt8) : Option Nat :=
  if first = 253 then some 2
  else if first = 254 then some 4
  else if first = 255 then some 8
  else none

/-- The variable-size number at the front of the input, and how many bytes it takes. -/
def readVar : Bytes → Except FormatError (Nat × Nat)
  | [] => .error (.truncated 1 0)
  | first :: rest =>
    match markerWidth? first with
    | none => .ok (first.toNat, 1)
    | some width =>
      -- `take` looks at `width` bytes only, however long the input is.
      let digits := rest.take width
      if digits.length < width then .error (.truncated (width + 1) (rest.length + 1))
      else .ok (Bytes.toNat digits, width + 1)

theorem length_writeVar (n : Nat) : (writeVar n).length = varSize n := by
  unfold writeVar varSize
  split
  · rfl
  split
  · simp [Bytes.length_ofNat]
  split <;> simp [Bytes.length_ofNat]

/-- The shortest sized integer for `n`. -/
def writeInteger (n : Nat) : Bytes :=
  if n < UInt8.size then Bytes.ofNat 1 n
  else if n < UInt16.size then Bytes.ofNat 2 n
  else if n < UInt32.size then Bytes.ofNat 4 n
  else Bytes.ofNat 8 n

/-- The number a sized integer stands for; only 1, 2, 4 or 8 bytes are one. -/
def readInteger (bytes : Bytes) : Except FormatError Nat :=
  if bytes.length ∈ [1, 2, 4, 8] then .ok bytes.toNat
  else .error (.invalidIntegerLength bytes.length)

end Bulletin.Wire
