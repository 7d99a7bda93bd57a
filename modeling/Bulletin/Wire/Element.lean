import Bulletin.Wire.Number

/-!
# Type-length-value elements

An element is a type number, the length of its value, and the value. `Element.write` frames a value;
`Element.read` takes one element off the front of a byte string.
-/

namespace Bulletin.Wire

/-- A framed value: its type number and its bytes. -/
structure Element where
  type : Nat
  value : Bytes
  deriving DecidableEq, Repr

namespace Element

def size (type length : Nat) : Nat :=
  varSize type + varSize length + length

def write (element : Element) : Bytes :=
  writeVar element.type ++ writeVar element.value.length ++ element.value

/-- The element at the front of the input, and how many bytes it takes. -/
def read (input : Bytes) : Except FormatError (Element × Nat) :=
  match readVar input with
  | .error e => .error e
  | .ok (type, typeSize) =>
    match readVar (input.drop typeSize) with
    | .error e => .error e
    | .ok (length, lengthSize) =>
      let header := typeSize + lengthSize
      let stop := header + length
      -- An end that no 64-bit offset reaches is reported as the largest one.
      if limit ≤ stop then .error (.truncated (limit - 1) input.length)
      else
        let value := (input.drop header).take length
        if value.length < length then .error (.truncated stop input.length)
        else .ok (⟨type, value⟩, stop)

theorem length_write (element : Element) :
    element.write.length = size element.type element.value.length := by
  simp [write, size, length_writeVar, Nat.add_assoc]

end Element

end Bulletin.Wire
