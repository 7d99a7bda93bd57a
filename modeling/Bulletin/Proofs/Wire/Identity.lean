import Bulletin.Proofs.Wire.RoundTrip
import Bulletin.Publication.Basic

/-!
# Identity — what an id says about its publication

The id of a publication is the digest of one byte string: the domain, the name on the wire, the length
of the payload, and the payload. The author of a publication chooses most of these bytes. Still the
string can be taken apart in one way only, since every part but the last tells its own end:

* `Wire.writeVar_append_inj`, `Wire.Element.write_append_inj` — a number or an element in front of
  other bytes;
* `Component.flatMap_encode_inj` — a sequence of components;
* `Name.encode_append_inj` — a name in front of other bytes;
* `Publication.idInput_inj` — the input of the digest;
* `Publication.id_determines` — equal ids mean equal publications, or a collision of the digest.

A component of type 0 is written like any other, so nothing here asks for a type that can be read back.
-/

namespace Bulletin

attribute [ext] Wire.Element Publication

/-- Two different byte strings with the same digest. -/
def Digest.Blake3.Collision (a b : Bytes) : Prop :=
  a ≠ b ∧ hash a = hash b

/-! ## Numbers and elements -/

namespace Wire

variable {m n : Nat} {rest rest' : Bytes}

/-- What stands in front can be read, so it is the same on both sides. -/
theorem writeVar_append_inj (hm : m < 2 ^ 64) (hn : n < 2 ^ 64)
    (h : writeVar m ++ rest = writeVar n ++ rest') : m = n ∧ rest = rest' := by
  have hread := readVar_append hm rest
  rw [h, readVar_append hn] at hread
  have hsame : n = m := congrArg Prod.fst (Except.ok.inj hread)
  subst hsame
  exact ⟨rfl, List.append_cancel_left h⟩

namespace Element

variable {a b : Element}

/-- Type and length are numbers that have a form on the wire. -/
structure Writable (e : Element) : Prop where
  type : e.type < 2 ^ 64
  length : e.value.length < 2 ^ 64

theorem write_append_inj (ha : a.Writable) (hb : b.Writable)
    (h : a.write ++ rest = b.write ++ rest') : a = b ∧ rest = rest' := by
  rw [write_eq, write_eq, List.append_assoc, List.append_assoc, List.append_assoc,
    List.append_assoc] at h
  obtain ⟨htype, hafter⟩ := writeVar_append_inj ha.type hb.type h
  obtain ⟨hlength, hvalues⟩ := writeVar_append_inj ha.length hb.length hafter
  -- Both values are as long as the header says, so they end at the same place.
  obtain ⟨hvalue, hrest⟩ := List.append_inj hvalues hlength
  exact ⟨Element.ext htype hvalue, hrest⟩

end Element

end Wire

/-! ## Names -/

namespace Component

theorem writable {c : Component} (h : c.value.length < 2 ^ 64) : c.element.Writable where
  type := Nat.lt_trans c.type.toNat_lt (by decide)
  length := h

theorem element_inj {a b : Component} (h : a.element = b.element) : a = b := by
  obtain ⟨htype, hvalue⟩ := Wire.Element.mk.inj h
  exact Component.ext (UInt16.toNat_inj.mp htype) hvalue

/-- By induction along both sequences: the first components are equal, and so are the bytes behind
them. Neither sequence ends before the other, since a component takes at least one byte. -/
theorem flatMap_encode_inj {as bs : List Component} (ha : ∀ c ∈ as, c.value.length < 2 ^ 64)
    (hb : ∀ c ∈ bs, c.value.length < 2 ^ 64) (h : as.flatMap encode = bs.flatMap encode) :
    as = bs := by
  induction as generalizing bs with
  | nil =>
      cases bs with
      | nil => rfl
      | cons b bs => simp [b.encode_ne_nil] at h
  | cons a as ih =>
      cases bs with
      | nil => simp [a.encode_ne_nil] at h
      | cons b bs =>
          obtain ⟨ha, has⟩ := List.forall_mem_cons.mp ha
          obtain ⟨hb, hbs⟩ := List.forall_mem_cons.mp hb
          obtain ⟨hfirst, hrest⟩ := Wire.Element.write_append_inj (writable ha) (writable hb) h
          rw [element_inj hfirst, ih has hbs hrest]

end Component

namespace Name

variable {a b : Name} {rest rest' : Bytes}

theorem length_value_le_of_mem {name : Name} {c : Component} (h : c ∈ name.components) :
    c.value.length ≤ name.encodeValue.length := by
  have hwritten : c.encode.Sublist name.encodeValue :=
    List.sublist_flatten_of_mem (List.mem_map_of_mem h)
  calc
    c.value.length ≤ c.encode.length := Wire.Element.length_value_le c.element
    _ ≤ name.encodeValue.length := hwritten.length_le

theorem encode_append_inj (ha : a.encodeValue.length < 2 ^ 64) (hb : b.encodeValue.length < 2 ^ 64)
    (h : a.encode ++ rest = b.encode ++ rest') : a = b ∧ rest = rest' := by
  have htype : elementType < 2 ^ 64 := by decide
  obtain ⟨hname, hrest⟩ :=
    Wire.Element.write_append_inj (a := ⟨elementType, a.encodeValue⟩)
      (b := ⟨elementType, b.encodeValue⟩) ⟨htype, ha⟩ ⟨htype, hb⟩ h
  have hvalue : a.encodeValue = b.encodeValue := congrArg Wire.Element.value hname
  have hcomponents : a.components = b.components :=
    Component.flatMap_encode_inj (fun _ hc => Nat.lt_of_le_of_lt (length_value_le_of_mem hc) ha)
      (fun _ hc => Nat.lt_of_le_of_lt (length_value_le_of_mem hc) hb) hvalue
  exact ⟨Name.ext hcomponents, hrest⟩

end Name

/-! ## Publications -/

namespace Publication

variable {p q : Publication}

/-- The name tells its own end, and the length of the payload is always eight bytes; the payload is
all the rest. -/
theorem idInput_inj (hp : p.name.encodeValue.length < 2 ^ 64)
    (hq : q.name.encodeValue.length < 2 ^ 64) (h : p.idInput = q.idInput) : p = q := by
  have htail : p.name.encode ++ (Bytes.ofNat 8 p.payload.length ++ p.payload) =
      q.name.encode ++ (Bytes.ofNat 8 q.payload.length ++ q.payload) := by
    simpa [idInput] using h
  obtain ⟨hname, hsized⟩ := Name.encode_append_inj hp hq htail
  have hwidth : (Bytes.ofNat 8 p.payload.length).length = (Bytes.ofNat 8 q.payload.length).length := by
    rw [Bytes.length_ofNat, Bytes.length_ofNat]
  exact Publication.ext hname (List.append_inj hsized hwidth).2

theorem id_eq_iff : p.id = q.id ↔ Digest.Blake3.hash p.idInput = Digest.Blake3.hash q.idInput := by
  rw [id, id, PublicationId.mk.injEq]

/-- The input of the digest determines the publication, whatever the bytes of its name and its payload:
no byte can be moved from one part to another. So two publications with one id are the same
publication, or their two inputs are a collision of the digest. -/
theorem id_determines (p q : Publication) (hp : p.name.encodeValue.length < 2 ^ 64)
    (hq : q.name.encodeValue.length < 2 ^ 64) :
    (p.idInput = q.idInput → p.name = q.name ∧ p.payload = q.payload) ∧
      (p.id = q.id ↔ p = q ∨ Digest.Blake3.Collision p.idInput q.idInput) := by
  constructor
  · intro hinput
    cases idInput_inj hp hq hinput
    exact ⟨rfl, rfl⟩
  · rw [id_eq_iff]
    constructor
    · intro hdigest
      by_cases hinput : p.idInput = q.idInput
      · exact Or.inl (idInput_inj hp hq hinput)
      · exact Or.inr ⟨hinput, hdigest⟩
    · rintro (rfl | ⟨-, hdigest⟩)
      · rfl
      · exact hdigest

/-- Two components of type 0, or one and its bytes moved to the payload: all bytes are zero but the
lengths. -/
theorem id_determines_moved :
    let p : Publication := ⟨⟨[⟨0, []⟩, ⟨0, []⟩]⟩, []⟩
    let q : Publication := ⟨⟨[⟨0, []⟩]⟩, [0, 0]⟩
    p.idInput.length = q.idInput.length ∧ p.idInput ≠ q.idInput ∧
      (p.id = q.id → Digest.Blake3.Collision p.idInput q.idInput) := by
  intro p q
  obtain ⟨hinput, hid⟩ := id_determines p q (by decide) (by decide)
  have hother : p ≠ q := by decide
  refine ⟨by decide, ?_, ?_⟩
  · intro hsame
    have hname := (hinput hsame).1
    exact absurd hname (by decide)
  · intro hsame
    exact (hid.mp hsame).resolve_left hother

end Publication

end Bulletin
