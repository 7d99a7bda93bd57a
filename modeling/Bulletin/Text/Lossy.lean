import Bulletin.Bytes

/-!
# Lossy text

The text that a byte string stands for, whatever its bytes. The bytes are read one at a time. Where they
are no UTF-8, the longest start of a character is replaced as a whole by U+FFFD, and the byte that does
not continue it is read again as the first of the next one.

- `Text.ofBytes`: the text of a byte string,
- `Text.ofBytes_utf8`: the bytes of a text stand for that text.
-/

namespace Bulletin.Text

/-- A character of more than one byte, of which some are read. -/
structure Begun where
  /-- The bits of the bytes that are read. -/
  code : Nat
  /-- How many more bytes there are behind the next one. -/
  later : Nat
  /-- The least that the next byte may be. -/
  low : Nat := 0x80
  /-- The greatest that the next byte may be. -/
  high : Nat := 0xBF
  deriving DecidableEq, Repr

/-- The character that a byte begins. The bounds on the second byte leave out what has a shorter form,
the surrogates, and what is beyond U+10FFFF. -/
def begun? (b : Nat) : Option Begun :=
  if 0xC2 ≤ b ∧ b ≤ 0xDF then some { code := b - 0xC0, later := 0 }
  else if b = 0xE0 then some { code := 0, later := 1, low := 0xA0 }
  else if b = 0xED then some { code := 0xD, later := 1, high := 0x9F }
  else if 0xE1 ≤ b ∧ b ≤ 0xEF then some { code := b - 0xE0, later := 1 }
  else if b = 0xF0 then some { code := 0, later := 2, low := 0x90 }
  else if b = 0xF4 then some { code := 4, later := 2, high := 0x8F }
  else if 0xF1 ≤ b ∧ b ≤ 0xF3 then some { code := b - 0xF0, later := 2 }
  else none

def replacement : Char := '\ufffd'

/-- What the first byte of a character gives: characters that are complete, and one that is not. -/
def readFirst (b : Nat) : List Char × Option Begun :=
  if b < 0x80 then ([Char.ofNat b], none)
  else
    match begun? b with
    | some begun => ([], some begun)
    | none => ([replacement], none)

def readNext (begun : Begun) (b : Nat) : List Char × Option Begun :=
  if begun.low ≤ b ∧ b ≤ begun.high then
    let code := 64 * begun.code + (b - 0x80)
    match begun.later with
    | 0 => ([Char.ofNat code], none)
    | later + 1 => ([], some { code, later })
  else
    let (chars, next) := readFirst b
    (replacement :: chars, next)

def readByte : Option Begun → Nat → List Char × Option Begun
  | none, b => readFirst b
  | some begun, b => readNext begun b

/-- The characters of the bytes behind the start of a character, if there is one. -/
def charsFrom : Option Begun → Bytes → List Char
  | none, [] => []
  | some _, [] => [replacement]
  | begun, b :: rest =>
    let (chars, next) := readByte begun b.toNat
    chars ++ charsFrom next rest

def ofBytes (bytes : Bytes) : String :=
  String.ofList (charsFrom none bytes)

/-! ## The bytes of a text -/

variable {b n code later low high : Nat} {begun : Begun} {rest : Bytes}

theorem begun?_two (hhigh : n < 32) (hlow : 2 ≤ n) :
    begun? (n + 0xC0) = some { code := n, later := 0 } := by
  decide +revert

theorem begun?_three (h : n < 16) :
    begun? (n + 0xE0) =
      some { code := n, later := 1, low := if n = 0 then 0xA0 else 0x80,
             high := if n = 0xD then 0x9F else 0xBF } := by
  decide +revert

theorem begun?_four (h : n < 5) :
    begun? (n + 0xF0) =
      some { code := n, later := 2, low := if n = 0 then 0x90 else 0x80,
             high := if n = 4 then 0x8F else 0xBF } := by
  decide +revert

theorem charsFrom_first (hbyte : b < 256) (hbegun : begun? b = some begun) :
    charsFrom none (UInt8.ofNat b :: rest) = charsFrom (some begun) rest := by
  have hlow : ¬ b < 0x80 := by
    intro hlow
    simp only [begun?] at hbegun
    grind
  simp [charsFrom, readByte, readFirst, Nat.mod_eq_of_lt hbyte, hlow, hbegun]

theorem charsFrom_next (hlow : low ≤ n + 0x80) (hhigh : n + 0x80 ≤ high) (hbits : n < 64) :
    charsFrom (some ⟨code, later + 1, low, high⟩) (UInt8.ofNat (n + 0x80) :: rest) =
      charsFrom (some { code := 64 * code + n, later }) rest := by
  have hbyte : (n + 0x80) % 256 = n + 0x80 := Nat.mod_eq_of_lt (by omega)
  simp [charsFrom, readByte, readNext, hbyte, hlow, hhigh]

theorem charsFrom_last (hbits : n < 64) :
    charsFrom (some { code, later := 0 }) (UInt8.ofNat (n + 0x80) :: rest) =
      Char.ofNat (64 * code + n) :: charsFrom none rest := by
  have hbyte : (n + 0x80) % 256 = n + 0x80 := Nat.mod_eq_of_lt (by omega)
  have hhigh : n + 0x80 ≤ 0xBF := by omega
  simp [charsFrom, readByte, readNext, hbyte, hhigh]

theorem charsFrom_utf8EncodeChar (c : Char) :
    charsFrom none (String.utf8EncodeChar c ++ rest) = c :: charsFrom none rest := by
  have hvalid : c.val.toNat < 0xD800 ∨ 0xDFFF < c.val.toNat ∧ c.val.toNat < 0x110000 := c.valid
  have hchar : Char.ofNat c.val.toNat = c := Char.ofNat_toNat c
  generalize hv : c.val.toNat = v at hvalid hchar
  rw [String.utf8EncodeChar.eq_1, hv]
  -- One case for each number of bytes; the bounds on the second one follow from the size and `hvalid`.
  by_cases hone : v ≤ 0x7F
  · have hbyte : v % 256 = v := Nat.mod_eq_of_lt (by omega)
    have hlow : v < 0x80 := by omega
    simp [hone, charsFrom, readByte, readFirst, hbyte, hlow, hchar]
  by_cases htwo : v ≤ 0x7FF
  · have hbits : v / 64 % 32 = v / 64 := Nat.mod_eq_of_lt (by omega)
    have hcode : 64 * (v / 64) + v % 64 = v := Nat.div_add_mod v 64
    rw [if_neg hone, if_pos htwo, hbits]
    simp only [List.cons_append, List.nil_append]
    rw [charsFrom_first (by omega) (begun?_two (by omega) (by omega)), charsFrom_last (by omega), hcode,
      hchar]
  by_cases hthree : v ≤ 0xFFFF
  · have hbits : v / 4096 % 16 = v / 4096 := Nat.mod_eq_of_lt (by omega)
    have hcode : 64 * (64 * (v / 4096) + v / 64 % 64) + v % 64 = v := by omega
    rw [if_neg hone, if_neg htwo, if_pos hthree, hbits]
    simp only [List.cons_append, List.nil_append]
    rw [charsFrom_first (by omega) (begun?_three (by omega)),
      charsFrom_next (by grind) (by grind) (by omega), charsFrom_last (by omega), hcode, hchar]
  · have hbits : v / 262144 % 8 = v / 262144 := Nat.mod_eq_of_lt (by omega)
    have hcode : 64 * (64 * (64 * (v / 262144) + v / 4096 % 64) + v / 64 % 64) + v % 64 = v := by omega
    rw [if_neg hone, if_neg htwo, if_neg hthree, hbits]
    simp only [List.cons_append, List.nil_append]
    rw [charsFrom_first (by omega) (begun?_four (by omega)),
      charsFrom_next (by grind) (by grind) (by omega), charsFrom_next (by omega) (by omega) (by omega),
      charsFrom_last (by omega), hcode, hchar]

/-- The bytes of a text stand for that text. -/
theorem ofBytes_utf8 (text : List Char) : ofBytes (utf8 text) = String.ofList text := by
  rw [ofBytes]
  congr 1
  induction text with
  | nil => rfl
  | cons c text ih =>
      rw [utf8, List.flatMap_cons, charsFrom_utf8EncodeChar]
      exact congrArg (c :: ·) ih

end Bulletin.Text
