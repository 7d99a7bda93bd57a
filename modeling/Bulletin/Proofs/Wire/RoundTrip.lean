import Bulletin.Proofs.Wire.Framing
import Bulletin.Name.Wire

/-!
# RoundTrip — names on the wire

The wire form of a name is an element whose value is a sequence of elements. This file reads it back:

* `Component.read_append` — a component is read back whatever follows it, unless its type is 0;
* `Name.readComponents_encode` — so is a sequence of them, up to the first one of type 0;
* `Name.decode_append`, `Name.decode_take` — the outer element is found whole, with bytes left over,
  or cut;
* `Name.wire_round_trip` — all of it together.

Type 0 is written like any other type, and reading refuses it.
-/

namespace Bulletin

attribute [ext] Component Name

/-! ## Components -/

namespace Component

theorem encode_ne_nil (c : Component) : c.encode ≠ [] := by
  have htype := Wire.varSize_pos c.type.toNat
  refine List.ne_nil_of_length_pos ?_
  rw [length_encode, encodedSize, Wire.Element.size]
  omega

theorem ofElement_element (c : Component) :
    ofElement c.element = if c.type = 0 then .error (.invalidComponentType 0) else .ok c := by
  have hrange : c.type.toNat < UInt16.size := c.type.toNat_lt
  have hback : UInt16.ofNat c.type.toNat = c.type := UInt16.ofNat_toNat
  by_cases hzero : c.type = 0
  · simp [ofElement, element, hzero]
  · have hpositive : 0 < c.type.toNat := by
      refine Nat.pos_of_ne_zero fun hnone => hzero ?_
      exact UInt16.toNat_inj.mp hnone
    simp [ofElement, element, hzero, hpositive, hrange, hback]

theorem read_append (c : Component) (hsize : c.encode.length < 2 ^ 64) (rest : Bytes) :
    read (c.encode ++ rest) =
      if c.type = 0 then .error (.invalidComponentType 0) else .ok (c, c.encode.length) := by
  have htype : c.element.type < 2 ^ 64 := Nat.lt_trans c.type.toNat_lt (by decide)
  have helement : Wire.Element.read (c.encode ++ rest) = .ok (c.element, c.encode.length) :=
    Wire.Element.read_append htype hsize rest
  by_cases hzero : c.type = 0
  · simp only [read, helement, ofElement_element, if_pos hzero]
  · simp only [read, helement, ofElement_element, if_neg hzero]

end Component

namespace Name

/-! ## Sequences of components -/

variable {found : List Component} {input : Bytes}

theorem readComponents_of_ok {c : Component} {used : Nat} (hinput : input ≠ [])
    (hused : 0 < used) (hread : Component.read input = .ok (c, used)) :
    readComponents found input = readComponents (c :: found) (input.drop used) := by
  cases input with
  | nil => exact absurd rfl hinput
  | cons first rest =>
      obtain ⟨more, rfl⟩ := Nat.exists_eq_succ_of_ne_zero (Nat.ne_of_gt hused)
      rw [readComponents, hread]
      rfl

theorem readComponents_of_error {e : FormatError} (hinput : input ≠ [])
    (hread : Component.read input = .error e) : readComponents found input = .error e := by
  cases input with
  | nil => exact absurd rfl hinput
  | cons first rest => rw [readComponents, hread]

theorem readComponents_encode (components : List Component)
    (hsize : (components.flatMap Component.encode).length < 2 ^ 64) (found : List Component) :
    readComponents found (components.flatMap Component.encode) =
      if ∀ c ∈ components, c.type ≠ 0 then .ok (found.reverse ++ components)
      else .error (.invalidComponentType 0) := by
  induction components generalizing found with
  | nil => simp [readComponents]
  | cons c rest ih =>
      rw [List.flatMap_cons] at hsize ⊢
      rw [List.length_append] at hsize
      have hinput : c.encode ++ rest.flatMap Component.encode ≠ [] := by
        simp [c.encode_ne_nil]
      have hread := c.read_append (by omega) (rest.flatMap Component.encode)
      by_cases hzero : c.type = 0
      · -- The sequence ends here, whatever comes after.
        rw [if_pos hzero] at hread
        rw [readComponents_of_error hinput hread]
        simp [hzero]
      · rw [if_neg hzero] at hread
        have hused : 0 < c.encode.length := List.length_pos_iff.mpr c.encode_ne_nil
        rw [readComponents_of_ok hinput hused hread, List.drop_left, ih (by omega)]
        simp [hzero]

/-! ## Whole names -/

variable {name : Name}

theorem element_read (hsize : name.encode.length < 2 ^ 64) (rest : Bytes) :
    Wire.Element.read (name.encode ++ rest) =
      .ok (⟨elementType, name.encodeValue⟩, name.encode.length) :=
  Wire.Element.read_append (e := ⟨elementType, name.encodeValue⟩) (by simp [elementType]) hsize rest

theorem decode_encode (hsize : name.encode.length < 2 ^ 64) :
    decode name.encode =
      if ∀ c ∈ name.components, c.type ≠ 0 then .ok name
      else .error (.invalidComponentType 0) := by
  have hvalue : name.encodeValue.length < 2 ^ 64 :=
    Nat.lt_of_le_of_lt
      (Wire.Element.length_value_le ⟨elementType, name.encodeValue⟩) hsize
  have helement := element_read hsize []
  rw [List.append_nil] at helement
  have hcomponents := readComponents_encode name.components hvalue []
  rw [← encodeValue] at hcomponents
  have hwhole : ¬ name.encode.length < name.encode.length := Nat.lt_irrefl _
  by_cases hall : ∀ c ∈ name.components, c.type ≠ 0
  · rw [if_pos hall] at hcomponents ⊢
    simp only [decode, helement, hcomponents, ne_eq, not_true_eq_false, if_false, if_neg hwhole]
    rfl
  · rw [if_neg hall] at hcomponents ⊢
    simp only [decode, helement, hcomponents, ne_eq, not_true_eq_false, if_false, if_neg hwhole]

theorem decode_append (hsize : name.encode.length < 2 ^ 64) {suffix : Bytes} (hne : suffix ≠ []) :
    decode (name.encode ++ suffix) = .error (.trailingBytes suffix.length) := by
  have hleft : name.encode.length < (name.encode ++ suffix).length := by
    rw [List.length_append]
    have := List.length_pos_iff.mpr hne
    omega
  have hcount : (name.encode ++ suffix).length - name.encode.length = suffix.length := by
    rw [List.length_append]
    omega
  simp only [decode, element_read hsize, ne_eq, not_true_eq_false, if_false, if_pos hleft, hcount]

theorem decode_take (hsize : name.encode.length < 2 ^ 64) {k : Nat}
    (hcut : k < name.encode.length) : Short (decode (name.encode.take k)) := by
  have hshort : Short (Wire.Element.read (name.encode.take k)) :=
    Wire.Element.read_take (e := ⟨elementType, name.encodeValue⟩) (by simp [elementType]) hsize hcut
  rcases hshort with ⟨needed, available, hless, hread⟩
  exact ⟨needed, available, hless, by simp only [decode, hread]⟩

/-- The wire form of a name has the size it is said to have and is read back as that name; one with a
component of type 0 is refused for that type. No beginning of the wire form is taken for a name: each
is refused as too short. Nor is any extension of it: the bytes left over are counted. -/
theorem wire_round_trip (name : Name) (hsize : name.encode.length < 2 ^ 64) :
    name.encode.length = name.encodedSize ∧
      ((∀ c ∈ name.components, c.type ≠ 0) → decode name.encode = .ok name) ∧
      ((∃ c ∈ name.components, c.type = 0) →
        decode name.encode = .error (.invalidComponentType 0)) ∧
      (∀ input, input <+: name.encode → input ≠ name.encode →
        ∃ needed available, available < needed ∧
          decode input = .error (.truncated needed available)) ∧
      ∀ suffix, suffix ≠ [] →
        decode (name.encode ++ suffix) = .error (.trailingBytes suffix.length) := by
  refine ⟨length_encode name, ?_, ?_, ?_, fun suffix hne => decode_append hsize hne⟩
  · intro hall
    rw [decode_encode hsize, if_pos hall]
  · rintro ⟨c, hmem, hzero⟩
    rw [decode_encode hsize, if_neg fun hall => hall c hmem hzero]
  · intro input hinput hne
    have hcut : input.length < name.encode.length :=
      Nat.lt_of_le_of_ne hinput.length_le fun hsame => hne (hinput.eq_of_length hsame)
    rw [List.prefix_iff_eq_take.mp hinput]
    exact decode_take hsize hcut

/-- A component whose length needs a marker, in a name whose length needs one; and a component of
type 0 after it. -/
theorem wire_round_trip_wide :
    let wide : Component := ⟨65535, List.replicate 253 0⟩
    let name : Name := ⟨[wide, .generic []]⟩
    let barred : Name := ⟨[wide, ⟨0, [1]⟩]⟩
    decode name.encode = .ok name ∧
      decode (name.encode ++ [0, 0]) = .error (.trailingBytes 2) ∧
      (∃ needed available, available < needed ∧
        decode (name.encode.take 100) = .error (.truncated needed available)) ∧
      decode barred.encode = .error (.invalidComponentType 0) := by
  intro wide name barred
  have hwide : wide.encodedSize = 259 := by
    rw [Component.encodedSize, List.length_replicate]
    decide
  have hlength : name.encode.length = 265 := by
    rw [length_encode, encodedSize, Component.totalSize, hwide]
    decide
  have hbarred : barred.encode.length < 2 ^ 64 := by
    rw [length_encode, encodedSize, Component.totalSize, hwide]
    decide
  rcases wire_round_trip name (by omega) with ⟨-, hread, -, hcut, hmore⟩
  refine ⟨hread (by decide), hmore [0, 0] (by decide), hcut _ (List.take_prefix 100 _) ?_, ?_⟩
  · intro hsame
    have := congrArg List.length hsame
    rw [List.length_take] at this
    omega
  · exact (wire_round_trip barred hbarred).2.2.1 ⟨⟨0, [1]⟩, by decide, rfl⟩

end Name

end Bulletin
