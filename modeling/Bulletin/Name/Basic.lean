import Bulletin.Wire.Element

/-!
# Names

A name is a list of components, and a component is a typed byte string. This file has the types,
their canonical order, and the operations on names; the wire form and the text form have files of
their own.

- `Component`: a type in 0 to 65535 and a value. Type 8 is the generic type, type 36 marks a
  timestamp. Type 0 is refused wherever a component is built from parts.
- `Name`: the components from the root down.
-/

namespace Bulletin

/-- A typed byte string, one level of a name. -/
structure Component where
  type : UInt16
  value : Bytes
  deriving DecidableEq, Repr

namespace Component

def genericType : UInt16 := 8

def timestampType : UInt16 := 36

/-- A component of a given type, which must not be 0. -/
def make (type : UInt16) (value : Bytes) : Except FormatError Component :=
  if type = 0 then .error (.invalidComponentType 0) else .ok ⟨type, value⟩

def generic (value : Bytes) : Component :=
  ⟨genericType, value⟩

/-- Canonical order: by type, then the shorter value first, then byte by byte. -/
def compare (a b : Component) : Ordering :=
  (Ord.compare a.type.toNat b.type.toNat).then
    ((Ord.compare a.value.length b.value.length).then
      (List.compareLex Ord.compare a.value b.value))

instance : Ord Component := ⟨compare⟩

end Component

/-- A list of components, from the root down. -/
structure Name where
  components : List Component
  deriving DecidableEq, Repr

namespace Name

def root : Name := ⟨[]⟩

def length (name : Name) : Nat :=
  name.components.length

def append (name : Name) (component : Component) : Name :=
  ⟨name.components ++ [component]⟩

def appendGeneric (name : Name) (value : Bytes) : Name :=
  name.append (.generic value)

/-- The component at an index; a negative index counts from the end. -/
def get? (name : Name) (index : Int) : Option Component :=
  let position := if index < 0 then index + name.length else index
  if position < 0 then none else name.components[position.toNat]?

def last? (name : Name) : Option Component :=
  name.components.getLast?

/-- The first `count` components, or all when there are fewer. -/
def take (name : Name) (count : Nat) : Name :=
  ⟨name.components.take count⟩

/-- Whether `name` starts with all of the components of `topic`. -/
def covers (topic name : Name) : Bool :=
  topic.components.isPrefixOf name.components

/-- Canonical order: component by component, a proper beginning first. -/
def compare (a b : Name) : Ordering :=
  List.compareLex Component.compare a.components b.components

instance : Ord Name := ⟨compare⟩

end Name

end Bulletin
