import Bulletin.Proofs.Deadlines
import Bulletin.Wire.Number
import Mathlib.Data.List.Induction
import Mathlib.Tactic.SplitIfs

/-!
# Numeral — the spellings of a number

A number on the wire can be written in up to four ways: in one byte if it is small enough, or behind a
marker in any width that holds it. Reading takes them all; writing takes the shortest. This file
defines:

* `Short` — an outcome that says: the input ends too early;
* `Width`, `Numeral` — a number and a width that holds it, with the bytes that they stand for;
* `Numeral.readVar_append`, `Numeral.readVar_take` — reading a numeral that is followed by more bytes,
  and one that is cut;
* `readVar_eq_ok` — reading finds nothing but numerals;
* `Numeral.Shortest`, `Numeral.shortest_iff` — the shortest numeral of a number is the one that is
  written;
* `readVar_append` — what was written is read back.
-/

namespace Bulletin

/-- The input was refused because it ends too early. -/
def Short {α : Type} (outcome : Except FormatError α) : Prop :=
  ∃ needed available, available < needed ∧ outcome = .error (.truncated needed available)

/-! ## Digits -/

namespace Bytes

theorem toNat_lt (digits : Bytes) : toNat digits < 256 ^ digits.length := by
  induction digits using List.reverseRecOn with
  | nil => decide
  | append_singleton digits b ih =>
      have hlast := b.toNat_lt
      rw [toNat_append_singleton, List.length_append, List.length_singleton, Nat.pow_succ]
      omega

/-- By induction from the last digit on, which is the one that writing splits off. -/
theorem ofNat_toNat (digits : Bytes) : ofNat digits.length (toNat digits) = digits := by
  induction digits using List.reverseRecOn with
  | nil => rfl
  | append_singleton digits b ih =>
      have hlast := b.toNat_lt
      have hleading : (256 * toNat digits + b.toNat) / 256 = toNat digits := by omega
      have hdigit : UInt8.ofNat (256 * toNat digits + b.toNat) = b := by
        apply UInt8.toNat_inj.mp
        rw [UInt8.toNat_ofNat']
        omega
      rw [List.length_append, List.length_singleton, toNat_append_singleton, ofNat, hleading, hdigit,
        ih]

end Bytes

namespace Wire

/-! ## Widths -/

/-- The widths in which numbers are written: one byte, or a marker and 2, 4 or 8 bytes. -/
inductive Width where
  | one
  | two
  | four
  | eight
  deriving DecidableEq, Repr

namespace Width

/-- The numbers below this bound can be written in the width. -/
def bound : Width → Nat
  | one => 253
  | two => 2 ^ 16
  | four => 2 ^ 32
  | eight => 2 ^ 64

def size : Width → Nat
  | one => 1
  | two => 3
  | four => 5
  | eight => 9

def write : Width → Nat → Bytes
  | one, n => [UInt8.ofNat n]
  | two, n => 253 :: Bytes.ofNat 2 n
  | four, n => 254 :: Bytes.ofNat 4 n
  | eight, n => 255 :: Bytes.ofNat 8 n

theorem length_write (width : Width) (n : Nat) : (width.write n).length = width.size := by
  cases width with
  | one => rfl
  | two | four | eight => rw [write, List.length_cons, Bytes.length_ofNat, size]

end Width

/-- A number, and a width that holds it. -/
structure Numeral where
  value : Nat
  width : Width
  fits : value < width.bound
  deriving DecidableEq, Repr

/-! ## Reading -/

variable {n k count : Nat} {marker : UInt8} {input rest : Bytes}

theorem markerWidth?_ofNat (h : n < 253) : markerWidth? (UInt8.ofNat n) = none := by
  have hvalue : (UInt8.ofNat n).toNat = n := by
    rw [UInt8.toNat_ofNat']
    omega
  have hne (m : UInt8) (hm : 253 ≤ m.toNat) : UInt8.ofNat n ≠ m := by
    rintro rfl
    omega
  simp [markerWidth?, hne 253 (by decide), hne 254 (by decide), hne 255 (by decide)]

theorem readVar_of_marker (hmarker : markerWidth? marker = some count) (h : count ≤ rest.length) :
    readVar (marker :: rest) = .ok (Bytes.toNat (rest.take count), count + 1) := by
  have hfull : ¬ (rest.take count).length < count := by
    rw [List.length_take]
    omega
  simp only [readVar, hmarker, if_neg hfull]

theorem short_readVar_of_marker (hmarker : markerWidth? marker = some count)
    (h : rest.length < count) : Short (readVar (marker :: rest)) := by
  have hcut : (rest.take count).length < count := by
    rw [List.length_take]
    omega
  refine ⟨count + 1, rest.length + 1, by omega, ?_⟩
  simp only [readVar, hmarker, if_pos hcut]

namespace Numeral

def bytes (x : Numeral) : Bytes :=
  x.width.write x.value

theorem length_bytes (x : Numeral) : x.bytes.length = x.width.size :=
  x.width.length_write x.value

theorem bytes_cases (x : Numeral) :
    (x.value < 253 ∧ x.bytes = [UInt8.ofNat x.value]) ∨
      ∃ marker count, markerWidth? marker = some count ∧ x.value < 256 ^ count ∧
        x.bytes = marker :: Bytes.ofNat count x.value := by
  obtain ⟨value, width, hfits⟩ := x
  cases width with
  | one => exact Or.inl ⟨hfits, rfl⟩
  | two => exact Or.inr ⟨253, 2, by decide, hfits, rfl⟩
  | four => exact Or.inr ⟨254, 4, by decide, hfits, rfl⟩
  | eight => exact Or.inr ⟨255, 8, by decide, hfits, rfl⟩

/-- Whatever follows a numeral, reading finds its number and its end. -/
theorem readVar_append (x : Numeral) (rest : Bytes) :
    readVar (x.bytes ++ rest) = .ok (x.value, x.bytes.length) := by
  rcases x.bytes_cases with ⟨hbyte, hbytes⟩ | ⟨marker, count, hmarker, hbound, hbytes⟩
  · have hvalue : (UInt8.ofNat x.value).toNat = x.value := by
      rw [UInt8.toNat_ofNat']
      omega
    rw [hbytes]
    simp [readVar, markerWidth?_ofNat hbyte, hvalue]
  · have hlength : (Bytes.ofNat count x.value).length = count := Bytes.length_ofNat count x.value
    have hdigits : (Bytes.ofNat count x.value ++ rest).take count = Bytes.ofNat count x.value :=
      List.take_left' hlength
    rw [hbytes, List.cons_append, readVar_of_marker hmarker (by simp [hlength]), hdigits,
      Bytes.toNat_ofNat hbound, List.length_cons, hlength]

/-- A numeral that is cut is not taken for a smaller one. -/
theorem readVar_take {x : Numeral} (hcut : k < x.bytes.length) : Short (readVar (x.bytes.take k)) := by
  cases k with
  | zero => exact ⟨1, 0, by omega, rfl⟩
  | succ k =>
      rcases x.bytes_cases with ⟨-, hbytes⟩ | ⟨marker, count, hmarker, -, hbytes⟩
      · -- One byte leaves no room for a cut behind it.
        rw [hbytes] at hcut
        simp at hcut
      · have hlength : (Bytes.ofNat count x.value).length = count := Bytes.length_ofNat count x.value
        rw [hbytes, List.length_cons] at hcut
        rw [hbytes, List.take_succ_cons]
        refine short_readVar_of_marker hmarker ?_
        rw [List.length_take]
        omega

end Numeral

/-- Every marker has its width, and every other byte is a number of its own. -/
theorem width_of_first (first : UInt8) :
    (markerWidth? first = none ∧ first.toNat < 253) ∨
      ∃ (count : Nat) (width : Width), markerWidth? first = some count ∧
        width.bound = 256 ^ count ∧ width.size = count + 1 ∧
        ∀ n, width.write n = first :: Bytes.ofNat count n := by
  unfold markerWidth?
  split_ifs with htwo hfour height
  · exact Or.inr ⟨2, .two, rfl, rfl, rfl, fun n => htwo ▸ rfl⟩
  · exact Or.inr ⟨4, .four, rfl, rfl, rfl, fun n => hfour ▸ rfl⟩
  · exact Or.inr ⟨8, .eight, rfl, rfl, rfl, fun n => height ▸ rfl⟩
  · -- Three bytes are markers, and they are the largest ones.
    refine Or.inl ⟨rfl, ?_⟩
    rw [← UInt8.toNat_inj] at htwo hfour height
    have hbyte := first.toNat_lt
    grind

/-- Reading finds nothing but numerals. -/
theorem readVar_eq_ok {used : Nat} (h : readVar input = .ok (n, used)) :
    ∃ x : Numeral, x.value = n ∧ x.bytes.length = used ∧ x.bytes ++ input.drop used = input := by
  cases input with
  | nil => cases h
  | cons first rest =>
      rcases width_of_first first with ⟨hmarker, hsmall⟩ |
        ⟨count, width, hmarker, hbound, hsize, hwrite⟩
      · simp only [readVar, hmarker] at h
        cases h
        refine ⟨⟨first.toNat, .one, hsmall⟩, rfl, rfl, ?_⟩
        simp [Numeral.bytes, Width.write]
      · simp only [readVar, hmarker] at h
        split at h
        · cases h
        · rename_i hlong
          cases h
          have hlength : (rest.take count).length = count := by
            rw [List.length_take] at hlong ⊢
            omega
          -- The digits that were read fit the width, and writing gives them again.
          have hfits := Bytes.toNat_lt (rest.take count)
          have hdigits := Bytes.ofNat_toNat (rest.take count)
          rw [hlength] at hfits hdigits
          rw [← hbound] at hfits
          refine ⟨⟨_, width, hfits⟩, rfl, ?_, ?_⟩
          · rw [Numeral.length_bytes, hsize]
          · rw [Numeral.bytes, hwrite, hdigits, List.drop_succ_cons, List.cons_append,
              List.take_append_drop]

/-! ## The shortest numeral -/

namespace Width

/-- The width in which a number is written. -/
def least (n : Nat) : Width :=
  if n < 253 then one else if n < UInt16.size then two else if n < UInt32.size then four else eight

theorem write_least (n : Nat) : (least n).write n = writeVar n := by
  unfold least writeVar
  split_ifs <;> rfl

theorem size_least (n : Nat) : (least n).size = varSize n := by
  unfold least varSize
  split_ifs <;> rfl

theorem lt_bound_least (h : n < 2 ^ 64) : n < (least n).bound := by
  unfold least
  split_ifs with hone htwo hfour
  · exact hone
  · exact htwo
  · exact hfour
  · exact h

/-- A narrower width does not hold the number. -/
theorem size_least_le {width : Width} (h : n < width.bound) : (least n).size ≤ width.size := by
  have htwo : UInt16.size = 2 ^ 16 := rfl
  have hfour : UInt32.size = 2 ^ 32 := rfl
  unfold least
  cases width with
  | one | two | four | eight =>
      simp only [bound] at h
      split_ifs <;> simp only [size] <;> omega

theorem size_inj {a b : Width} (h : a.size = b.size) : a = b := by
  cases a <;> cases b <;> simp_all [size]

end Width

theorem varSize_pos (n : Nat) : 0 < varSize n := by
  unfold varSize
  split_ifs <;> omega

theorem varSize_mono {m n : Nat} (h : m ≤ n) : varSize m ≤ varSize n := by
  unfold varSize
  split_ifs <;> omega

namespace Numeral

/-- The numeral that is written for a number. -/
def written (h : n < 2 ^ 64) : Numeral :=
  ⟨n, .least n, Width.lt_bound_least h⟩

theorem bytes_written (h : n < 2 ^ 64) : (written h).bytes = writeVar n :=
  Width.write_least n

/-- No other numeral of the number takes fewer bytes. -/
def Shortest (x : Numeral) : Prop :=
  ∀ y : Numeral, y.value = x.value → x.bytes.length ≤ y.bytes.length

theorem value_lt (x : Numeral) : x.value < 2 ^ 64 := by
  have hbound : x.width.bound ≤ 2 ^ 64 := by
    cases x.width <;> decide
  exact Nat.lt_of_lt_of_le x.fits hbound

theorem varSize_le (x : Numeral) : varSize x.value ≤ x.bytes.length := by
  rw [← Width.size_least, length_bytes]
  exact Width.size_least_le x.fits

/-- A numeral that takes no more bytes than needed has the width that is written. -/
theorem bytes_eq_writeVar {x : Numeral} (h : x.bytes.length ≤ varSize x.value) :
    x.bytes = writeVar x.value := by
  have hsize : x.width.size = (Width.least x.value).size := by
    rw [Width.size_least, ← length_bytes]
    exact Nat.le_antisymm h x.varSize_le
  rw [bytes, Width.size_inj hsize, Width.write_least]

theorem shortest_iff {x : Numeral} : x.Shortest ↔ x.bytes = writeVar x.value := by
  constructor
  · intro hshortest
    -- The numeral that is written is among those it is compared with.
    apply bytes_eq_writeVar
    calc
      x.bytes.length ≤ (written x.value_lt).bytes.length := hshortest (written x.value_lt) rfl
      _ = varSize x.value := by rw [bytes_written, length_writeVar]
  · intro hwritten y hvalue
    calc
      x.bytes.length = varSize y.value := by rw [hwritten, length_writeVar, hvalue]
      _ ≤ y.bytes.length := y.varSize_le

end Numeral

/-! ## Written numbers -/

theorem readVar_append (h : n < 2 ^ 64) (rest : Bytes) :
    readVar (writeVar n ++ rest) = .ok (n, (writeVar n).length) := by
  rw [← Numeral.bytes_written h]
  exact (Numeral.written h).readVar_append rest

end Wire

end Bulletin
