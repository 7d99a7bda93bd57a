import Bulletin.Proofs.Wire.RoundTrip
import Mathlib.Data.List.Basic

/-!
# Grammar — which byte strings are names

A name on the wire is an element of type 7 around a sequence of elements, and every type and every
length may be written as any of its numerals. So a name has many spellings. On the spellings of
elements this file builds those of components and of names, each with the bytes that it stands for:

* `Component.Spelling`, `Name.Spelling` — the numerals of a component and of a name, with what the
  grammar asks of them;
* `Name.Spelling.numerals` — all the numerals of a spelling.

It proves that reading and spelling are the same thing, and which spelling writing chooses:

* `Name.decode_eq_ok_iff` — a byte string is read as a name exactly when it is a spelling of that name;
* `Name.Spelling.length_encode_le` — no spelling is shorter than the wire form;
* `Name.Spelling.encode_eq_iff` — a spelling is the wire form exactly when its numerals are the
  shortest ones;
* `Name.wire_grammar` — all of it together.
-/

namespace Bulletin

/-! ## Components -/

namespace Component

/-- An element whose type is that of a component. -/
structure Spelling extends Wire.Element.Spelling where
  ranged : 1 ≤ type.value ∧ type.value ≤ 65535

namespace Spelling

def component (x : Spelling) : Component :=
  ⟨UInt16.ofNat x.type.value, x.value⟩

theorem type_component (x : Spelling) : x.component.type.toNat = x.type.value := by
  have hranged := x.ranged
  rw [component, UInt16.toNat_ofNat']
  omega

theorem ofElement_element (x : Spelling) : ofElement x.element = .ok x.component := by
  have hranged : 0 < x.element.type ∧ x.element.type < UInt16.size :=
    ⟨x.ranged.1, Nat.lt_succ_of_le x.ranged.2⟩
  rw [ofElement, if_pos hranged]
  rfl

theorem type_ne_zero (x : Spelling) : x.component.type ≠ 0 := by
  intro hzero
  have htype := x.type_component
  have hranged := x.ranged
  rw [hzero, UInt16.toNat_zero] at htype
  omega

theorem bytes_ne_nil (x : Spelling) : x.bytes ≠ [] := by
  have hfirst := Nat.lt_of_lt_of_le (Wire.varSize_pos x.type.value) x.type.varSize_le
  apply List.ne_nil_of_length_pos
  rw [x.length_bytes]
  omega

theorem read_append (x : Spelling) (hsize : x.bytes.length < 2 ^ 64) (rest : Bytes) :
    read (x.bytes ++ rest) = .ok (x.component, x.bytes.length) := by
  simp only [read, Wire.Element.Spelling.read_append x.toSpelling hsize, ofElement_element]

end Spelling

theorem read_eq_ok {input : Bytes} {c : Component} {used : Nat} (h : read input = .ok (c, used)) :
    ∃ x : Spelling, x.component = c ∧ x.bytes.length = used ∧ x.bytes ++ input.drop used = input := by
  unfold read at h
  split at h
  · cases h
  rename_i e size hread
  split at h
  · cases h
  rename_i c' helement
  cases h
  obtain ⟨x, rfl, hused, hinput⟩ := Wire.Element.read_eq_ok hread
  unfold ofElement at helement
  split at helement
  · rename_i hranged
    cases helement
    exact ⟨⟨x, hranged.1, Nat.le_of_lt_succ hranged.2⟩, rfl, hused, hinput⟩
  · cases helement

end Component

namespace Name

/-! ## Sequences of components -/

/-- By induction along the spellings: reading goes from one to the next. -/
theorem readComponents_spellings (xs : List Component.Spelling)
    (hsize : (xs.flatMap (·.bytes)).length < 2 ^ 64) (found : List Component) :
    readComponents found (xs.flatMap (·.bytes)) =
      .ok (found.reverse ++ xs.map Component.Spelling.component) := by
  induction xs generalizing found with
  | nil => simp [readComponents]
  | cons x xs ih =>
      rw [List.flatMap_cons, List.length_append] at hsize
      have hfirst : x.bytes.length < 2 ^ 64 := Nat.lt_of_le_of_lt (Nat.le_add_right _ _) hsize
      have hrest := Nat.lt_of_le_of_lt (Nat.le_add_left _ _) hsize
      have hinput : x.bytes ++ xs.flatMap (·.bytes) ≠ [] := by simp [x.bytes_ne_nil]
      rw [List.flatMap_cons,
        readComponents_of_ok hinput (List.length_pos_iff.mpr x.bytes_ne_nil) (x.read_append hfirst _),
        List.drop_left, ih hrest]
      simp

/-- By induction along the reading: each turn takes the bytes of one spelling off the input. -/
theorem readComponents_eq_ok {found components : List Component} {input : Bytes}
    (h : readComponents found input = .ok components) :
    ∃ xs : List Component.Spelling, xs.flatMap (·.bytes) = input ∧
      components = found.reverse ++ xs.map Component.Spelling.component := by
  fun_induction readComponents found input with
  | case1 found =>
      cases h
      exact ⟨[], rfl, by simp⟩
  | case2 found first rest e hread => cases h
  | case3 found first rest c used hread ih =>
      obtain ⟨x, rfl, rfl, hinput⟩ := Component.read_eq_ok hread
      obtain ⟨xs, hxs, hcomponents⟩ := ih h
      -- The recursive call drops one byte less, since it starts behind the first byte of the input.
      have hpositive : 0 < x.bytes.length := List.length_pos_iff.mpr x.bytes_ne_nil
      obtain ⟨count, hcount⟩ := Nat.exists_eq_succ_of_ne_zero (Nat.ne_of_gt hpositive)
      refine ⟨x :: xs, ?_, ?_⟩
      · rw [List.flatMap_cons, hxs]
        rw [hcount, List.drop_succ_cons] at hinput
        rw [hcount]
        exact hinput
      · rw [hcomponents]
        simp

/-! ## Names -/

/-- A name with all of its numerals: an element of type 7 around spelled components. -/
structure Spelling where
  type : Wire.Numeral
  length : Wire.Numeral
  components : List Component.Spelling
  named : type.value = 7
  measured : length.value = (components.flatMap (·.bytes)).length

namespace Spelling

def element (x : Spelling) : Wire.Element.Spelling where
  type := x.type
  length := x.length
  value := x.components.flatMap (·.bytes)
  measured := x.measured

/-- The bytes of the spelling: type, length and components. -/
def bytes (x : Spelling) : Bytes :=
  x.element.bytes

def name (x : Spelling) : Name :=
  ⟨x.components.map Component.Spelling.component⟩

def numerals (x : Spelling) : List Wire.Numeral :=
  x.type :: x.length :: x.components.flatMap fun c => [c.type, c.length]

theorem decode_bytes (x : Spelling) (hsize : x.bytes.length < 2 ^ 64) :
    decode x.bytes = .ok x.name := by
  have helement := x.element.read_append hsize []
  rw [List.append_nil] at helement
  have hvalue : (x.components.flatMap (·.bytes)).length < 2 ^ 64 := by
    refine Nat.lt_of_le_of_lt ?_ hsize
    rw [bytes, x.element.length_bytes]
    exact Nat.le_add_left _ _
  have hcomponents := readComponents_spellings x.components hvalue []
  have htype : x.element.element.type = elementType := x.named
  have hwhole : ¬ x.element.bytes.length < x.element.bytes.length := Nat.lt_irrefl _
  have hread : readComponents [] x.element.element.value = .ok x.name.components := hcomponents
  simp only [decode, bytes, helement, htype, hread, ne_eq, not_true_eq_false, if_false, if_neg hwhole]

end Spelling

theorem exists_spelling {input : Bytes} {name : Name} (h : decode input = .ok name) :
    ∃ x : Spelling, x.bytes = input ∧ x.name = name := by
  unfold decode at h
  split at h
  · cases h
  rename_i e used hread
  split at h
  · cases h
  rename_i htype
  split at h
  · cases h
  rename_i hwhole
  split at h
  · cases h
  rename_i components hcomponents
  cases h
  obtain ⟨⟨type, length, value, hmeasured⟩, rfl, rfl, hinput⟩ := Wire.Element.read_eq_ok hread
  obtain ⟨xs, hvalue, rfl⟩ := readComponents_eq_ok hcomponents
  simp only [Wire.Element.Spelling.element] at hvalue
  subst hvalue
  -- Nothing is left behind the element.
  rw [List.drop_eq_nil_of_le (Nat.le_of_not_lt hwhole), List.append_nil] at hinput
  exact ⟨⟨type, length, xs, Classical.not_not.mp htype, hmeasured⟩, hinput, rfl⟩

/-- Reading accepts the spellings of names and nothing else. -/
theorem decode_eq_ok_iff {input : Bytes} {name : Name} (hsize : input.length < 2 ^ 64) :
    decode input = .ok name ↔ ∃ x : Spelling, x.bytes = input ∧ x.name = name := by
  constructor
  · exact exists_spelling
  · rintro ⟨x, rfl, rfl⟩
    exact x.decode_bytes hsize

end Name

/-! ## The shortest spelling -/

namespace Component.Spelling

theorem encodedSize_le (x : Spelling) : x.component.encodedSize ≤ x.bytes.length := by
  have htype := x.type.varSize_le
  have hlength := x.length.varSize_le
  have hvalue : x.component.value = x.value := rfl
  rw [x.measured] at hlength
  rw [encodedSize, Wire.Element.size, x.type_component, x.length_bytes, hvalue]
  omega

/-- A component that takes no more bytes than its wire form has the shortest numerals. -/
theorem shortest_of_le {x : Spelling} (h : x.bytes.length ≤ x.component.encodedSize) :
    x.type.Shortest ∧ x.length.Shortest := by
  have htype := x.type.varSize_le
  have hlength := x.length.varSize_le
  have hvalue : x.component.value = x.value := rfl
  rw [encodedSize, Wire.Element.size, x.type_component, x.length_bytes, hvalue, ← x.measured] at h
  rw [Wire.Numeral.shortest_iff, Wire.Numeral.shortest_iff]
  exact ⟨Wire.Numeral.bytes_eq_writeVar (by omega), Wire.Numeral.bytes_eq_writeVar (by omega)⟩

theorem bytes_eq_encode {x : Spelling} (htype : x.type.Shortest) (hlength : x.length.Shortest) :
    x.bytes = x.component.encode := by
  rw [Wire.Numeral.shortest_iff] at htype hlength
  rw [Wire.Element.Spelling.bytes, htype, hlength, x.measured, encode, Wire.Element.write_eq,
    element, x.type_component]
  rfl

theorem totalSize_le (xs : List Spelling) :
    totalSize (xs.map component) ≤ (xs.flatMap (·.bytes)).length := by
  induction xs with
  | nil => exact Nat.le_refl _
  | cons x xs ih =>
      rw [List.flatMap_cons, List.length_append, List.map_cons, totalSize]
      exact Nat.add_le_add x.encodedSize_le ih

theorem all_shortest_of_le {xs : List Spelling}
    (h : (xs.flatMap (·.bytes)).length ≤ totalSize (xs.map component)) :
    ∀ x ∈ xs, x.type.Shortest ∧ x.length.Shortest := by
  induction xs with
  | nil => simp
  | cons x xs ih =>
      rw [List.flatMap_cons, List.length_append, List.map_cons, totalSize] at h
      have hfirst := x.encodedSize_le
      have hrest := totalSize_le xs
      exact List.forall_mem_cons.mpr ⟨shortest_of_le (by omega), ih (by omega)⟩

end Component.Spelling

namespace Name

namespace Spelling

variable {x : Spelling}

theorem length_bytes (x : Spelling) :
    x.bytes.length = x.type.bytes.length + x.length.bytes.length + x.length.value := by
  rw [bytes, x.element.length_bytes, x.measured]
  rfl

theorem totalSize_le (x : Spelling) : Component.totalSize x.name.components ≤ x.length.value := by
  rw [x.measured]
  exact Component.Spelling.totalSize_le x.components

/-- The wire form has the shortest numerals, and a length that is not larger. -/
theorem length_encode_le (x : Spelling) : x.name.encode.length ≤ x.bytes.length := by
  have htype := x.type.varSize_le
  have hlength := x.length.varSize_le
  have htotal := x.totalSize_le
  have hsize := Wire.varSize_mono htotal
  rw [x.named] at htype
  rw [length_encode, encodedSize, Wire.Element.size, x.length_bytes, elementType]
  omega

theorem decode_encode_name (x : Spelling) (hsize : x.bytes.length < 2 ^ 64) :
    decode x.name.encode = .ok x.name := by
  have htypes : ∀ c ∈ x.name.components, c.type ≠ 0 := by
    intro c hc
    obtain ⟨y, -, rfl⟩ := List.mem_map.mp hc
    exact y.type_ne_zero
  rw [decode_encode (Nat.lt_of_le_of_lt x.length_encode_le hsize), if_pos htypes]

theorem shortest_of_le (h : x.bytes.length ≤ x.name.encode.length) :
    ∀ v ∈ x.numerals, v.Shortest := by
  have htype := x.type.varSize_le
  have hlength := x.length.varSize_le
  have htotal := x.totalSize_le
  have hsize := Wire.varSize_mono htotal
  rw [x.named] at htype
  rw [length_encode, encodedSize, Wire.Element.size, x.length_bytes, elementType] at h
  -- Each part of the wire form is at most as long, so each is exactly as long.
  have hinner : (x.components.flatMap (·.bytes)).length ≤
      Component.totalSize (x.components.map Component.Spelling.component) := by
    rw [← x.measured]
    exact (by omega : x.length.value ≤ Component.totalSize x.name.components)
  have hcomponents := Component.Spelling.all_shortest_of_le hinner
  have hfirst : x.type.Shortest := by
    apply Wire.Numeral.shortest_iff.mpr
    apply Wire.Numeral.bytes_eq_writeVar
    rw [x.named]
    omega
  have hsecond : x.length.Shortest :=
    Wire.Numeral.shortest_iff.mpr (Wire.Numeral.bytes_eq_writeVar (by omega))
  rw [numerals, List.forall_mem_cons, List.forall_mem_cons]
  refine ⟨hfirst, hsecond, ?_⟩
  intro v hv
  obtain ⟨c, hc, hmem⟩ := List.mem_flatMap.mp hv
  have heither : v = c.type ∨ v = c.length := by simpa using hmem
  rcases heither with rfl | rfl
  · exact (hcomponents c hc).1
  · exact (hcomponents c hc).2

theorem bytes_eq_encode (h : ∀ v ∈ x.numerals, v.Shortest) : x.bytes = x.name.encode := by
  rw [numerals, List.forall_mem_cons, List.forall_mem_cons] at h
  obtain ⟨htype, hlength, hcomponents⟩ := h
  rw [Wire.Numeral.shortest_iff] at htype hlength
  have hvalue : x.components.flatMap (·.bytes) = x.name.encodeValue := by
    rw [encodeValue, name, List.flatMap_map]
    apply List.flatMap_congr
    intro c hc
    apply Component.Spelling.bytes_eq_encode
    · exact hcomponents _ (List.mem_flatMap.mpr ⟨c, hc, by simp⟩)
    · exact hcomponents _ (List.mem_flatMap.mpr ⟨c, hc, by simp⟩)
  rw [bytes, Wire.Element.Spelling.bytes, encode, Wire.Element.write_eq]
  simp only [element]
  rw [htype, hlength, x.named, x.measured, hvalue]
  rfl

theorem length_encode_lt (h : x.bytes ≠ x.name.encode) : x.name.encode.length < x.bytes.length := by
  apply Nat.lt_of_not_le
  intro hle
  exact h (bytes_eq_encode (shortest_of_le hle))

/-- A spelling is the wire form exactly when it has the shortest numerals. -/
theorem encode_eq_iff : x.name.encode = x.bytes ↔ ∀ v ∈ x.numerals, v.Shortest := by
  constructor
  · intro hsame
    exact shortest_of_le (Nat.le_of_eq (congrArg List.length hsame.symm))
  · intro hshortest
    exact (bytes_eq_encode hshortest).symm

end Spelling

/-- Reading accepts exactly the byte strings that spell a name, each number in any of its forms, and
gives the name that is spelled. Of all byte strings that are read as a name its wire form is the only
one of its length, and no other is shorter. So what is read and written again is unchanged exactly when
all of its numbers had their shortest form. -/
theorem wire_grammar (input : Bytes) (hsize : input.length < 2 ^ 64) (name : Name) :
    (decode input = .ok name ↔ ∃ x : Spelling, x.bytes = input ∧ x.name = name) ∧
      (decode input = .ok name → decode name.encode = .ok name ∧
        (input ≠ name.encode → name.encode.length < input.length)) ∧
      (decode input = .ok name → ∀ x : Spelling, x.bytes = input →
        (name.encode = input ↔ ∀ v ∈ x.numerals, v.Shortest)) := by
  refine ⟨decode_eq_ok_iff hsize, ?_, ?_⟩
  · intro hread
    obtain ⟨x, rfl, rfl⟩ := exists_spelling hread
    exact ⟨x.decode_encode_name hsize, Spelling.length_encode_lt⟩
  · rintro hread x rfl
    -- Reading has one result, so every spelling of the input spells the same name.
    have hname : x.name = name := Except.ok.inj ((x.decode_bytes hsize).symm.trans hread)
    rw [← hname]
    exact Spelling.encode_eq_iff

/-- A name whose numbers all take more bytes than they need. -/
theorem wire_grammar_wide :
    let component : Component.Spelling :=
      { type := ⟨8, .eight, by decide⟩, length := ⟨1, .two, by decide⟩, value := [97]
        measured := rfl, ranged := by decide }
    let x : Spelling :=
      { type := ⟨7, .two, by decide⟩, length := ⟨13, .four, by decide⟩, components := [component]
        named := rfl, measured := by decide }
    let name : Name := ⟨[.generic [97]]⟩
    decode x.bytes = .ok name ∧ decode name.encode = .ok name ∧
      name.encode.length < x.bytes.length ∧ ¬ ∀ v ∈ x.numerals, v.Shortest := by
  intro component x name
  obtain ⟨hread, hshortest, hunchanged⟩ := wire_grammar x.bytes (by decide) name
  have hdecode : decode x.bytes = .ok name := hread.mpr ⟨x, rfl, rfl⟩
  have hother : x.bytes ≠ name.encode := by decide
  refine ⟨hdecode, (hshortest hdecode).1, (hshortest hdecode).2 hother, ?_⟩
  intro hall
  exact hother ((hunchanged hdecode x rfl).mpr hall).symm

end Name

end Bulletin
