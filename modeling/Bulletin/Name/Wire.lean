import Bulletin.Name.Basic

/-!
# The wire form of names

A component is an element of its own type. A name is an element of type 7 whose value is the
concatenation of its components. Reading accepts any form of the numbers and refuses bytes left over.
-/

namespace Bulletin

namespace Component

def element (c : Component) : Wire.Element :=
  ⟨c.type.toNat, c.value⟩

def encode (c : Component) : Bytes :=
  c.element.write

def encodedSize (c : Component) : Nat :=
  Wire.Element.size c.type.toNat c.value.length

def totalSize : List Component → Nat
  | [] => 0
  | c :: rest => c.encodedSize + totalSize rest

/-- The component that an element stands for; its type must be in 1 to 65535. -/
def ofElement (element : Wire.Element) : Except FormatError Component :=
  if 0 < element.type ∧ element.type < UInt16.size then
    .ok ⟨UInt16.ofNat element.type, element.value⟩
  else .error (.invalidComponentType element.type)

/-- The component at the front of the input, and how many bytes it takes. -/
def read (input : Bytes) : Except FormatError (Component × Nat) :=
  match Wire.Element.read input with
  | .error e => .error e
  | .ok (element, used) =>
    match ofElement element with
    | .error e => .error e
    | .ok c => .ok (c, used)

/-- The component whose wire form is the whole input. -/
def decode (input : Bytes) : Except FormatError Component :=
  match read input with
  | .error e => .error e
  | .ok (c, used) =>
    if used < input.length then .error (.trailingBytes (input.length - used)) else .ok c

theorem length_encode (c : Component) : c.encode.length = c.encodedSize :=
  Wire.Element.length_write c.element

end Component

namespace Name

def elementType : Nat := 7

def encodeValue (name : Name) : Bytes :=
  name.components.flatMap Component.encode

def encode (name : Name) : Bytes :=
  Wire.Element.write ⟨elementType, name.encodeValue⟩

def encodedSize (name : Name) : Nat :=
  Wire.Element.size elementType (Component.totalSize name.components)

/-- The components that fill the input, after those already found (last one first). -/
def readComponents (found : List Component) (input : Bytes) :
    Except FormatError (List Component) :=
  match input with
  | [] => .ok found.reverse
  | first :: rest =>
    match Component.read (first :: rest) with
    | .error e => .error e
    -- One byte is gone already, so each turn leaves less to read.
    | .ok (c, used) => readComponents (c :: found) (rest.drop (used - 1))
termination_by input.length
decreasing_by
  simp only [List.length_drop, List.length_cons]
  omega

/-- The name whose wire form is the whole input. -/
def decode (input : Bytes) : Except FormatError Name :=
  match Wire.Element.read input with
  | .error e => .error e
  | .ok (element, used) =>
    if element.type ≠ elementType then
      .error (.unexpectedType elementType element.type)
    else if used < input.length then .error (.trailingBytes (input.length - used))
    else
      match readComponents [] element.value with
      | .error e => .error e
      | .ok components => .ok ⟨components⟩

theorem length_encodeValue (name : Name) :
    name.encodeValue.length = Component.totalSize name.components := by
  unfold encodeValue
  induction name.components with
  | nil => rfl
  | cons c rest ih =>
    rw [List.flatMap_cons, List.length_append, c.length_encode, ih]
    rfl

theorem length_encode (name : Name) : name.encode.length = name.encodedSize := by
  rw [encode, Wire.Element.length_write, encodedSize, length_encodeValue]

end Name

end Bulletin
