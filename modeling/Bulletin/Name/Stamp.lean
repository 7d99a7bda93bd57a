import Bulletin.Name.Basic
import Bulletin.Time.Timestamp

/-!
# Timestamp components

A component of the timestamp type whose value is a sized integer says when something was made. A name
is stamped by its last component.
-/

namespace Bulletin

namespace Component

/-- The component that holds a timestamp, its value in the shortest form. -/
def ofTimestamp (t : Timestamp) : Component :=
  ⟨timestampType, Wire.writeInteger t.toNat⟩

/-- The timestamp a component holds: it has the timestamp type and a sized integer as its value. -/
def timestamp? (c : Component) : Option Timestamp :=
  if c.type = timestampType then
    match Wire.readInteger c.value with
    | .ok n => some (.ofNat n)
    | .error _ => none
  else none

def isTimestamp (c : Component) : Bool :=
  c.timestamp?.isSome

end Component

namespace Name

def stamp (name : Name) (t : Timestamp) : Name :=
  name.append (.ofTimestamp t)

/-- The timestamp held by the last component. -/
def timestamp? (name : Name) : Option Timestamp :=
  name.last?.bind Component.timestamp?

end Name

end Bulletin
