import Bulletin.Bytes
import Bulletin.Text.Quoted

/-!
# Publication ids

An id is a digest of 32 bytes. Ids are ordered byte by byte, written as 64 hexadecimal digits, and
shown by the first 16 of these.
-/

namespace Bulletin

/-- A digest of 32 bytes that stands for a publication. -/
structure PublicationId where
  bytes : Bytes
  length_bytes : bytes.length = 32
  deriving DecidableEq, Repr

inductive IdError where
  /-- An odd number of bytes. -/
  | oddLength
  /-- The first byte that is no hexadecimal digit, and where it stands. -/
  | invalidCharacter (byte : UInt8) (position : Nat)
  /-- Digits for more or fewer than 32 bytes. -/
  | wrongLength
  deriving DecidableEq, Repr

/-- The text that tells a reader why the id was refused; a byte is shown as the character whose code
point it is. -/
def IdError.message : IdError → String
  | oddLength => "Odd number of digits"
  | invalidCharacter byte position =>
    "Invalid character " ++ Text.quotedChar (Char.ofNat byte.toNat) ++ " at position " ++
      String.ofList (Nat.toDigits 10 position)
  | wrongLength => "Invalid string length"

namespace PublicationId

def ofBytes? (bytes : Bytes) : Option PublicationId :=
  if h : bytes.length = 32 then some ⟨bytes, h⟩ else none

/-- Byte by byte, the first difference decides. -/
def compare : PublicationId → PublicationId → Ordering :=
  compareOn bytes

instance : Ord PublicationId := ⟨compare⟩

instance : Std.TransCmp compare :=
  inferInstanceAs (Std.TransCmp (compareOn bytes))

instance : Std.LawfulEqCmp compare where
  eq_of_compare {a b} h := by
    have hbytes : a.bytes = b.bytes := Std.LawfulEqOrd.eq_of_compare h
    cases a
    cases b
    simpa using hbytes

def le (a b : PublicationId) : Bool :=
  (compare a b).isLE

def hex (id : PublicationId) : String :=
  id.bytes.hex

/-- The first 16 hexadecimal digits, which is how an id is shown. -/
def short (id : PublicationId) : String :=
  Bytes.hex (id.bytes.take 8)

def inspect (id : PublicationId) : String :=
  "PublicationId(" ++ id.short ++ ")"

def pairDigits : List Nat → Bytes
  | high :: low :: rest => UInt8.ofNat (16 * high + low) :: pairDigits rest
  | _ => []

def ofHex (text : String) : Except IdError PublicationId :=
  let bytes := utf8 text.toList
  if bytes.length % 2 = 1 then .error .oddLength
  else
    let digit? (b : UInt8) : Option Nat := hexValue? (Char.ofNat b.toNat)
    match bytes.zipIdx.find? fun (b, _) => (digit? b).isNone with
    | some (b, position) => .error (.invalidCharacter b position)
    | none =>
      match ofBytes? (pairDigits (bytes.filterMap digit?)) with
      | some id => .ok id
      | none => .error .wrongLength

end PublicationId

end Bulletin
