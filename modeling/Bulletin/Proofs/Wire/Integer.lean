import Bulletin.Proofs.Uri.RoundTrip
import Bulletin.Proofs.Wire.Numeral

/-!
# Integer — the two forms of a number side by side

A variable-size number tells its own size and so pays for a marker; a sized integer is digits only.
Their widths change at different numbers, 253 for the one and 256 for the other, but both are written
as short as they can be and read in any width. This file defines:

* `readVar_written`, `readVar_cut`, `readVar_found` — a variable-size number that was written, that is
  cut, and that was found;
* `integerSize`, `readInteger_eq_ok_iff`, `integerSize_le` — how many digits a sized integer needs;
* `eq_writeInteger_iff` — of all sized integers for a number, the one that is written is the shortest;
* `Component.starts_stamp_iff` — so the text of a component tells whether it was made from a timestamp;
* `number_forms` — all of it together.
-/

namespace Bulletin

namespace Wire

variable {n m k : Nat} {input bytes : Bytes}

/-! ## Variable-size numbers -/

theorem readVar_written (h : n < 2 ^ 64) (rest : Bytes) :
    readVar (writeVar n ++ rest) = .ok (n, varSize n) := by
  rw [readVar_append h, length_writeVar]

theorem readVar_cut (h : n < 2 ^ 64) (hstart : input <+: writeVar n) (hne : input ≠ writeVar n) :
    Short (readVar input) := by
  rw [← Numeral.bytes_written h] at hstart hne
  have hcut : input.length < (Numeral.written h).bytes.length :=
    Nat.lt_of_le_of_ne hstart.length_le fun hsame => hne (hstart.eq_of_length hsame)
  rw [List.prefix_iff_eq_take.mp hstart]
  exact Numeral.readVar_take hcut

/-- What was found is a 64-bit number and lies in the input. It takes at least as many bytes as
writing it would, and as many only if it stands there as it is written. -/
theorem readVar_found (h : readVar input = .ok (m, k)) :
    m < 2 ^ 64 ∧ varSize m ≤ k ∧ k ≤ input.length ∧ (k = varSize m ↔ input.take k = writeVar m) := by
  obtain ⟨x, rfl, rfl, hinput⟩ := readVar_eq_ok h
  -- The bytes that were used are those of a numeral, which may be wider than it need be.
  have htaken : input.take x.bytes.length = x.bytes := by
    rw [← hinput]
    exact List.take_left
  have hinside : x.bytes.length ≤ input.length := by
    rw [← htaken]
    exact List.length_take_le' _ _
  refine ⟨x.value_lt, x.varSize_le, hinside, ?_⟩
  rw [htaken]
  constructor
  · intro hsize
    exact Numeral.bytes_eq_writeVar (Nat.le_of_eq hsize)
  · intro hwritten
    rw [hwritten, length_writeVar]

/-! ## Sized integers -/

/-- The numbers of bytes that a sized integer may have. -/
def integerSizes : List Nat := [1, 2, 4, 8]

def integerSize (n : Nat) : Nat :=
  if n < UInt8.size then 1 else if n < UInt16.size then 2 else if n < UInt32.size then 4 else 8

theorem writeInteger_eq (n : Nat) : writeInteger n = Bytes.ofNat (integerSize n) n := by
  unfold writeInteger integerSize
  split_ifs <;> rfl

theorem length_writeInteger (n : Nat) : (writeInteger n).length = integerSize n := by
  rw [writeInteger_eq, Bytes.length_ofNat]

theorem readInteger_eq_ok_iff :
    readInteger bytes = .ok m ↔ bytes.length ∈ integerSizes ∧ Bytes.toNat bytes = m := by
  unfold readInteger
  split
  · rename_i hsize
    simp [integerSizes, hsize]
  · rename_i hsize
    simp [integerSizes, hsize]

/-- Fewer bytes do not hold the number. -/
theorem integerSize_le {width : Nat} (hwidth : width ∈ integerSizes) (h : n < 256 ^ width) :
    integerSize n ≤ width := by
  have hone : UInt8.size = 256 := rfl
  have htwo : UInt16.size = 256 ^ 2 := rfl
  have hfour : UInt32.size = 256 ^ 4 := rfl
  simp only [integerSizes, List.mem_cons, List.not_mem_nil, or_false] at hwidth
  unfold integerSize
  rcases hwidth with rfl | rfl | rfl | rfl <;> split_ifs <;> omega

theorem readInteger_lt (h : readInteger bytes = .ok m) : m < 256 ^ bytes.length := by
  rw [← (readInteger_eq_ok_iff.mp h).2]
  exact Bytes.toNat_lt bytes

theorem length_writeInteger_le (h : readInteger bytes = .ok m) :
    (writeInteger m).length ≤ bytes.length := by
  rw [length_writeInteger]
  exact integerSize_le (readInteger_eq_ok_iff.mp h).1 (readInteger_lt h)

/-- The digits of a number in a given width are unique, so the width decides. -/
theorem eq_writeInteger_iff (h : readInteger bytes = .ok m) :
    (writeInteger m).length = bytes.length ↔ bytes = writeInteger m := by
  constructor
  · intro hlength
    calc
      bytes = Bytes.ofNat bytes.length (Bytes.toNat bytes) := (Bytes.ofNat_toNat bytes).symm
      _ = Bytes.ofNat (integerSize m) m := by
            rw [(readInteger_eq_ok_iff.mp h).2, ← hlength, length_writeInteger]
      _ = writeInteger m := (writeInteger_eq m).symm
  · intro hwritten
    rw [hwritten]

theorem readInteger_lt_limit (h : readInteger bytes = .ok m) : m < 2 ^ 64 := by
  have hsize : bytes.length ≤ 8 := by
    have hmem := (readInteger_eq_ok_iff.mp h).1
    simp only [integerSizes, List.mem_cons, List.not_mem_nil, or_false] at hmem
    omega
  calc
    m < 256 ^ bytes.length := readInteger_lt h
    _ ≤ 256 ^ 8 := Nat.pow_le_pow_right (by decide) hsize

end Wire

/-! ## Timestamps in text -/

namespace Component

open Uri

/-- What the text of a timestamp starts with. -/
def stampMark : List Char := ['t', '=']

theorem uriChars_ofTimestamp (t : Timestamp) :
    (ofTimestamp t).uriChars = stampMark ++ Nat.toDigits 10 t.toNat := by
  simp only [uriChars, timestamp?_ofTimestamp]
  exact if_pos rfl

theorem uri_ofTimestamp (t : Timestamp) : (ofTimestamp t).uri = "t=" ++ decimal t.toNat := by
  rw [uri, uriChars_ofTimestamp, String.ofList_append, decimal]
  rfl

theorem toList_uri (c : Component) : c.uri.toList = c.uriChars :=
  String.toList_ofList

/-- No value is written with an equals sign in it, and no type with a letter. -/
theorem starts_stamp_iff {c : Component} :
    stampMark <+: c.uri.toList ↔ ∃ t, c = .ofTimestamp t := by
  rw [toList_uri]
  constructor
  · rintro ⟨rest, htext⟩
    rcases c.uriChars_cases with ⟨t, hstamp, -⟩ | ⟨-, hplain⟩ | htyped
    · exact ⟨t, hstamp⟩
    · have hequals : '=' ∈ escape c.value := by
        rw [← hplain, ← htext]
        simp [stampMark]
      exact absurd hequals (not_mem_escape (by decide) (by decide) c.value)
    · -- The mark would have to start among the digits of the type.
      rw [htyped] at htext
      have hfirst : 't' ∈ Nat.toDigits 10 c.type.toNat := by
        cases hdigits : Nat.toDigits 10 c.type.toNat with
        | nil => exact absurd hdigits Nat.toDigits_ne_nil
        | cons first more =>
            rw [hdigits] at htext
            have hsame : 't' = first := (List.cons.inj htext).1
            rw [hsame]
            exact List.mem_cons_self
      exact absurd hfirst (not_mem_toDigits (by decide) _)
  · rintro ⟨t, rfl⟩
    exact ⟨_, (uriChars_ofTimestamp t).symm⟩

/-- Of the components that hold a timestamp, the one that is made from it is the one whose text
says so. -/
theorem starts_stamp_iff_of_timestamp? {c : Component} {t : Timestamp} (h : c.timestamp? = some t) :
    stampMark <+: c.uri.toList ↔ c = .ofTimestamp t := by
  rw [starts_stamp_iff]
  constructor
  · rintro ⟨t', rfl⟩
    -- A component holds one timestamp, so it was made from this one.
    rw [timestamp?_ofTimestamp] at h
    rw [Option.some.inj h]
  · intro hmade
    exact ⟨t, hmade⟩

end Component

namespace Wire

/-- Numbers in both forms. A variable-size number is read back whatever follows it, with its size; cut
short, it is refused as too short. Whatever is read as one is a 64-bit number inside the input, takes at
least as many bytes as are written for it, and as many only if they are the bytes that are written. A
sized integer is read back, and no other sized integer for the number is as short. So a component that
holds a timestamp is shown as one exactly when it is the one made from that timestamp, and no component
without one is shown so. -/
theorem number_forms :
    (∀ n < 2 ^ 64, ∀ rest, readVar (writeVar n ++ rest) = .ok (n, varSize n)) ∧
      (∀ n < 2 ^ 64, ∀ input, input <+: writeVar n → input ≠ writeVar n →
        ∃ needed available, available < needed ∧
          readVar input = .error (.truncated needed available)) ∧
      (∀ input m k, readVar input = .ok (m, k) →
        m < 2 ^ 64 ∧ varSize m ≤ k ∧ k ≤ input.length ∧
          (k = varSize m ↔ input.take k = writeVar m)) ∧
      (∀ n < 2 ^ 64, readInteger (writeInteger n) = .ok n) ∧
      (∀ bytes m, readInteger bytes = .ok m →
        m < 2 ^ 64 ∧ (writeInteger m).length ≤ bytes.length ∧
          ((writeInteger m).length = bytes.length ↔ bytes = writeInteger m)) ∧
      (∀ (c : Component) (t : Timestamp), c.timestamp? = some t →
        (['t', '='] <+: c.uri.toList ↔ c = .ofTimestamp t)) ∧
      (∀ c : Component, ['t', '='] <+: c.uri.toList → ∃ t, c = .ofTimestamp t) ∧
      ∀ t : Timestamp, (Component.ofTimestamp t).uri = "t=" ++ decimal t.toNat := by
  refine ⟨fun n h rest => readVar_written h rest, fun n h input hstart hne => readVar_cut h hstart hne,
    fun input m k h => readVar_found h, fun n h => readInteger_writeInteger h, ?_,
    fun c t h => Component.starts_stamp_iff_of_timestamp? h,
    fun c h => Component.starts_stamp_iff.mp h, Component.uri_ofTimestamp⟩
  intro bytes m h
  exact ⟨readInteger_lt_limit h, length_writeInteger_le h, eq_writeInteger_iff h⟩

/-- The numbers at which the widths change, which are not the same for the two forms; a number in a
width that it does not need; and a timestamp in one. -/
theorem number_forms_width_change :
    let wide : Component := ⟨36, [0, 255]⟩
    (∀ n ∈ [252, 253, 255, 256, 65535, 65536, 4294967295, 4294967296, 18446744073709551615],
      readVar (writeVar n ++ [7]) = .ok (n, varSize n) ∧ readInteger (writeInteger n) = .ok n) ∧
      [252, 253, 255, 256, 65535, 65536, 4294967295, 4294967296].map varSize =
        [1, 3, 3, 3, 3, 5, 5, 9] ∧
      [252, 253, 255, 256, 65535, 65536, 4294967295, 4294967296].map
        (fun n => (writeInteger n).length) = [1, 1, 1, 2, 2, 4, 4, 8] ∧
      (∃ needed available, available < needed ∧
        readVar ((writeVar 253).take 2) = .error (.truncated needed available)) ∧
      readVar [253, 0, 252] = .ok (252, 3) ∧ [253, 0, 252].take 3 ≠ writeVar 252 ∧
      readInteger [0, 255] = .ok 255 ∧ [0, 255] ≠ writeInteger 255 ∧
      wide.timestamp? = some ⟨255⟩ ∧ wide.uri = "36=%00%FF" ∧
        ¬ ['t', '='] <+: wide.uri.toList := by
  intro wide
  rcases number_forms with ⟨hread, hcut, hfound, hinteger, hdigits, hstamp, -, -⟩
  have hwide : readVar [253, 0, 252] = .ok (252, 3) := by decide
  have hlong : readInteger [0, 255] = .ok 255 := by decide
  have htime : wide.timestamp? = some ⟨255⟩ := by decide
  refine ⟨?_, by decide, by decide, ?_, hwide, ?_, hlong, ?_, htime, by decide, ?_⟩
  · intro n hmem
    have hn : n < 2 ^ 64 := by
      revert n
      decide
    exact ⟨hread n hn [7], hinteger n hn⟩
  · exact hcut 253 (by decide) _ (List.take_prefix 2 _) (by decide)
  · intro hsame
    have hsize := (hfound _ _ _ hwide).2.2.2.mpr hsame
    exact absurd hsize (by decide)
  · intro hsame
    have hsize := (hdigits _ _ hlong).2.2.mpr hsame
    exact absurd hsize (by decide)
  · intro hmark
    have hmade := (hstamp wide ⟨255⟩ htime).mp hmark
    exact absurd hmade (by decide)

end Wire

end Bulletin
