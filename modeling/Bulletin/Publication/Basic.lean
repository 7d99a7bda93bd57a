import Bulletin.Digest.Blake3
import Bulletin.Name.Wire
import Bulletin.Name.Stamp
import Bulletin.Publication.Id

/-!
# Publications

A publication is a name and a payload. It is identified by the digest of an encoding of both, and its
time is the timestamp in the last component of its name.
-/

namespace Bulletin

structure Publication where
  name : Name
  payload : Bytes
  deriving DecidableEq, Repr

namespace Publication

def timestamp? (p : Publication) : Option Timestamp :=
  p.name.timestamp?

/-- The timestamp that ends the name; zero stands in for a missing one. -/
def timestamp (p : Publication) : Timestamp :=
  p.timestamp?.getD .zero

/-- What a publication counts against a budget: its name on the wire, and its payload. -/
def size (p : Publication) : Nat :=
  p.name.encodedSize + p.payload.length

/-- The text that starts every digest of a publication. -/
def idDomain : Bytes :=
  utf8 "pubsync-pub-v0:".toList

/-- The bytes whose digest is the id: the domain, the name on the wire, the length of the payload in
eight bytes, and the payload. -/
def idInput (p : Publication) : Bytes :=
  idDomain ++ p.name.encode ++ Bytes.ofNat 8 p.payload.length ++ p.payload

def id (p : Publication) : PublicationId :=
  ⟨Digest.Blake3.hash p.idInput, Digest.Blake3.length_hash _⟩

/-- A publication under `name`, stamped with the time it is made at. -/
def stamped (name : Name) (t : Timestamp) (payload : Bytes) : Publication :=
  ⟨name.stamp t, payload⟩

/-- A publication without payload whose name is one generic component and a timestamp. -/
def labelled (label : String) (t : Timestamp) : Publication :=
  stamped (Name.root.appendGeneric (utf8 label.toList)) t []

end Publication

end Bulletin
