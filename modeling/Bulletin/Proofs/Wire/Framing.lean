import Bulletin.Proofs.Wire.Numeral
import Bulletin.Wire.Element

/-!
# Framing — elements tell their own end

An element says how long its value is, with a number that tells its own end. So an element can be read
whatever follows it, and an input that stops inside of it is refused as too short. That holds for every
way to write its two numbers. This file defines:

* `Wire.Element.Spelling` — an element with the numerals of its type and its length;
* `Wire.Element.Spelling.read_append`, `Wire.Element.Spelling.read_take` — reading a spelling that is
  followed by more bytes, and one that is cut;
* `Wire.Element.read_eq_ok` — reading finds nothing but spellings;
* `Wire.Element.read_append`, `Wire.Element.read_take` — the spelling that is written.
-/

namespace Bulletin.Wire.Element

variable {e : Element} {k : Nat}

/-! ## Spellings -/

/-- An element with the numerals of its type and of its length. -/
structure Spelling where
  type : Numeral
  length : Numeral
  value : Bytes
  measured : length.value = value.length

namespace Spelling

/-- The bytes of the spelling: type, length and value. -/
def bytes (x : Spelling) : Bytes :=
  x.type.bytes ++ (x.length.bytes ++ x.value)

def element (x : Spelling) : Element :=
  ⟨x.type.value, x.value⟩

theorem length_bytes (x : Spelling) :
    x.bytes.length = x.type.bytes.length + x.length.bytes.length + x.value.length := by
  rw [bytes, List.length_append, List.length_append, Nat.add_assoc]

/-- Reading goes by the two numbers of the header, whatever bytes come after them. -/
theorem read_header (x : Spelling) (hsize : x.bytes.length < 2 ^ 64) (rest : Bytes) :
    read (x.type.bytes ++ (x.length.bytes ++ rest)) =
      if rest.length < x.value.length then
        .error (.truncated x.bytes.length (x.type.bytes ++ (x.length.bytes ++ rest)).length)
      else .ok (⟨x.type.value, rest.take x.value.length⟩, x.bytes.length) := by
  have hstop : x.type.bytes.length + x.length.bytes.length + x.value.length = x.bytes.length :=
    x.length_bytes.symm
  have hreachable : ¬ limit ≤ x.bytes.length := Nat.not_le_of_lt hsize
  have hvalue : (x.type.bytes ++ (x.length.bytes ++ rest)).drop
      (x.type.bytes.length + x.length.bytes.length) = rest := by
    rw [← List.append_assoc, ← List.length_append, List.drop_left]
  have htaken : (rest.take x.value.length).length < x.value.length ↔
      rest.length < x.value.length := by
    rw [List.length_take]
    omega
  unfold read
  simp only [Numeral.readVar_append, List.drop_left, x.measured, hstop, if_neg hreachable, hvalue,
    htaken]

/-- Whatever follows a spelling, reading finds its element and its end. -/
theorem read_append (x : Spelling) (hsize : x.bytes.length < 2 ^ 64) (rest : Bytes) :
    read (x.bytes ++ rest) = .ok (x.element, x.bytes.length) := by
  have henough : ¬ (x.value ++ rest).length < x.value.length := by simp
  have hinput : x.bytes ++ rest = x.type.bytes ++ (x.length.bytes ++ (x.value ++ rest)) := by
    rw [bytes, List.append_assoc, List.append_assoc]
  rw [hinput, x.read_header hsize, if_neg henough, List.take_left]
  rfl

/-- The cut is inside the type, inside the length, or inside the value. -/
theorem read_take {x : Spelling} (hsize : x.bytes.length < 2 ^ 64) (hcut : k < x.bytes.length) :
    Short (read (x.bytes.take k)) := by
  have hlength := x.length_bytes
  unfold bytes
  by_cases hfirst : k < x.type.bytes.length
  · rcases Numeral.readVar_take hfirst with ⟨needed, available, hless, hread⟩
    rw [List.take_append_of_le_length (Nat.le_of_lt hfirst)]
    exact ⟨needed, available, hless, by simp only [read, hread]⟩
  · obtain ⟨past, rfl⟩ := Nat.exists_eq_add_of_le (Nat.le_of_not_lt hfirst)
    rw [List.take_length_add_append]
    by_cases hsecond : past < x.length.bytes.length
    · rcases Numeral.readVar_take hsecond with ⟨needed, available, hless, hread⟩
      rw [List.take_append_of_le_length (Nat.le_of_lt hsecond)]
      refine ⟨needed, available, hless, ?_⟩
      simp only [read, Numeral.readVar_append, List.drop_left, hread]
    · obtain ⟨part, rfl⟩ := Nat.exists_eq_add_of_le (Nat.le_of_not_lt hsecond)
      have hmissing : (x.value.take part).length < x.value.length := by
        rw [List.length_take]
        omega
      rw [List.take_length_add_append, x.read_header hsize, if_pos hmissing]
      refine ⟨_, _, ?_, rfl⟩
      simp only [List.length_append]
      omega

end Spelling

/-- Reading finds nothing but spellings. -/
theorem read_eq_ok {input : Bytes} {used : Nat} (h : read input = .ok (e, used)) :
    ∃ x : Spelling, x.element = e ∧ x.bytes.length = used ∧ x.bytes ++ input.drop used = input := by
  unfold read at h
  split at h
  · cases h
  rename_i n typeSize htype
  split at h
  · cases h
  rename_i m lengthSize hlength
  simp only at h
  split at h
  · cases h
  split at h
  · cases h
  rename_i hlong
  cases h
  obtain ⟨type, rfl, rfl, hrest⟩ := readVar_eq_ok htype
  obtain ⟨length, rfl, rfl, hvalue⟩ := readVar_eq_ok hlength
  rw [List.drop_drop] at hvalue
  -- The value is there in full, so it is as long as the header says.
  have hmeasured : length.value = ((input.drop (type.bytes.length + length.bytes.length)).take
      length.value).length := by
    rw [List.length_take] at hlong ⊢
    omega
  let x : Spelling := ⟨type, length, _, hmeasured⟩
  have hsize : x.bytes.length = type.bytes.length + length.bytes.length + length.value := by
    rw [x.length_bytes, ← x.measured]
  refine ⟨x, rfl, hsize, ?_⟩
  calc
    x.bytes ++ input.drop (type.bytes.length + length.bytes.length + length.value)
        = type.bytes ++ (length.bytes ++ input.drop (type.bytes.length + length.bytes.length)) := by
          rw [Spelling.bytes, List.append_assoc, List.append_assoc, ← List.drop_drop,
            List.take_append_drop]
    _ = type.bytes ++ input.drop type.bytes.length := by rw [hvalue]
    _ = input := hrest

/-! ## Written elements -/

theorem write_eq (e : Element) :
    e.write = writeVar e.type ++ (writeVar e.value.length ++ e.value) := by
  rw [write, List.append_assoc]

theorem length_value_le (e : Element) : e.value.length ≤ e.write.length := by
  rw [write_eq, List.length_append, List.length_append]
  omega

/-- Writing takes the numerals that are written for type and length. -/
theorem exists_spelling (htype : e.type < 2 ^ 64) (hlength : e.value.length < 2 ^ 64) :
    ∃ x : Spelling, x.element = e ∧ x.bytes = e.write := by
  refine ⟨⟨.written htype, .written hlength, e.value, rfl⟩, rfl, ?_⟩
  rw [Spelling.bytes, Numeral.bytes_written, Numeral.bytes_written, write_eq]

theorem read_append (htype : e.type < 2 ^ 64) (hsize : e.write.length < 2 ^ 64) (rest : Bytes) :
    read (e.write ++ rest) = .ok (e, e.write.length) := by
  obtain ⟨x, helement, hbytes⟩ := exists_spelling htype (Nat.lt_of_le_of_lt e.length_value_le hsize)
  rw [← hbytes] at hsize ⊢
  rw [x.read_append hsize, helement]

theorem read_take (htype : e.type < 2 ^ 64) (hsize : e.write.length < 2 ^ 64)
    (hcut : k < e.write.length) : Short (read (e.write.take k)) := by
  obtain ⟨x, -, hbytes⟩ := exists_spelling htype (Nat.lt_of_le_of_lt e.length_value_le hsize)
  rw [← hbytes] at hsize hcut ⊢
  exact Spelling.read_take hsize hcut

end Bulletin.Wire.Element
