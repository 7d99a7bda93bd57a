import Bulletin.Name.Uri

/-!
# Escaping — values as text and back

A value is written byte by byte: a plain byte as its own character, any other as a percent sign and
two digits. A value of periods only gets three more of them. This file reads the text back:

* `Uri.utf8EncodeChar_of_plain`, `Uri.hexValue?_escapeDigit` — single characters;
* `Uri.unescapeAfter_escapeByte` — one byte, in front of any text;
* `Uri.padded`, `Uri.unescape_escape` — a whole value, with the periods that were added;
* `Component.ofEscaped_escape` — the component whose value was written.

None of the characters that give a name its structure comes out of a value (`Uri.not_mem_escape`).
-/

namespace Bulletin

namespace Uri

/-! ## Characters -/

/-- The characters that mean something between values: the separators and the escape. -/
def reserved : List Char := ['%', '/', '=']

theorem plain_below : ∀ n < 256, isPlain (UInt8.ofNat n) = true →
    String.utf8EncodeChar (Char.ofNat n) = [UInt8.ofNat n] ∧ Char.ofNat n ∉ reserved := by
  decide +kernel

theorem plain_byte {b : UInt8} (h : isPlain b = true) :
    String.utf8EncodeChar (Char.ofNat b.toNat) = [b] ∧ Char.ofNat b.toNat ∉ reserved := by
  have hall := plain_below b.toNat b.toNat_lt
  rw [UInt8.ofNat_toNat] at hall
  exact hall h

theorem digit_below : ∀ n < 16,
    hexValue? (escapeDigit n) = some n ∧ escapeDigit n ∉ reserved := by
  decide

theorem escapeDigit_mod (n : Nat) : escapeDigit (n % 16) = escapeDigit n := by
  simp [escapeDigit, Bytes.hexDigit]

theorem hexValue?_escapeDigit (n : Nat) : hexValue? (escapeDigit n) = some (n % 16) := by
  rw [← escapeDigit_mod]
  exact (digit_below (n % 16) (Nat.mod_lt n (by decide))).1

theorem escapeDigit_not_reserved (n : Nat) : escapeDigit n ∉ reserved := by
  rw [← escapeDigit_mod]
  exact (digit_below (n % 16) (Nat.mod_lt n (by decide))).2

/-! ## Bytes -/

theorem unescapeAfter_char {c : Char} (h : c ≠ '%') (found : Bytes) (rest : List Char) :
    unescapeAfter found (c :: rest) =
      unescapeAfter ((String.utf8EncodeChar c).reverse ++ found) rest := by
  rw [unescapeAfter]
  · exact if_neg h
  · intro high low more hpercent
    exact absurd hpercent h

theorem unescapeAfter_escapeByte (b : UInt8) (found : Bytes) (rest : List Char) :
    unescapeAfter found (escapeByte b ++ rest) = unescapeAfter (b :: found) rest := by
  unfold escapeByte
  split
  · rename_i hplain
    rcases plain_byte hplain with ⟨hbytes, hfree⟩
    have hne : Char.ofNat b.toNat ≠ '%' := fun hsame => hfree (by simp [hsame, reserved])
    rw [List.singleton_append, unescapeAfter_char hne, hbytes]
    rfl
  · have hbound : b.toNat < 256 := b.toNat_lt
    have hvalue : 16 * (b.toNat / 16 % 16) + b.toNat % 16 = b.toNat := by omega
    simp only [List.cons_append, List.nil_append, unescapeAfter, hexValue?_escapeDigit, hvalue,
      UInt8.ofNat_toNat]

theorem unescapeAfter_escapeBytes (value found : Bytes) (rest : List Char) :
    unescapeAfter found (value.flatMap escapeByte ++ rest) =
      unescapeAfter (value.reverse ++ found) rest := by
  induction value generalizing found with
  | nil => rfl
  | cons b value ih =>
      calc
        unescapeAfter found ((b :: value).flatMap escapeByte ++ rest)
            = unescapeAfter found (escapeByte b ++ (value.flatMap escapeByte ++ rest)) := by
              rw [List.flatMap_cons, List.append_assoc]
        _ = unescapeAfter (value.reverse ++ b :: found) rest := by
              rw [unescapeAfter_escapeByte, ih]
        _ = unescapeAfter ((b :: value).reverse ++ found) rest := by simp

theorem mem_escapeByte {b : UInt8} {c : Char} (h : c ∈ escapeByte b) : c = '%' ∨ c ∉ reserved := by
  unfold escapeByte at h
  split at h
  · rename_i hplain
    rw [List.mem_singleton.mp h]
    exact Or.inr (plain_byte hplain).2
  · simp only [List.mem_cons, List.not_mem_nil, or_false] at h
    rcases h with rfl | rfl | rfl
    · exact Or.inl rfl
    · exact Or.inr (escapeDigit_not_reserved _)
    · exact Or.inr (escapeDigit_not_reserved _)

/-! ## Values -/

/-- The value that is written: three periods are added to a value of periods only. -/
def padded (value : Bytes) : Bytes :=
  value ++ if allPeriods value then List.replicate 3 period else []

theorem escape_eq (value : Bytes) : escape value = (padded value).flatMap escapeByte := by
  have hperiods : (List.replicate 3 period).flatMap escapeByte = ['.', '.', '.'] := by decide
  unfold escape padded
  split
  · rw [List.flatMap_append, hperiods]
  · rw [List.flatMap_append]
    rfl

theorem unescape_escape (value : Bytes) : unescape (escape value) = some (padded value) := by
  have hread := unescapeAfter_escapeBytes (padded value) [] []
  rw [List.append_nil, List.append_nil] at hread
  rw [unescape, escape_eq, hread, unescapeAfter, List.reverse_reverse]

theorem not_mem_escape {c : Char} (hc : c ∈ reserved) (hne : c ≠ '%') (value : Bytes) :
    c ∉ escape value := by
  intro hmem
  rw [escape_eq, List.mem_flatMap] at hmem
  rcases hmem with ⟨b, -, hbyte⟩
  rcases mem_escapeByte hbyte with hpercent | hfree
  · exact hne hpercent
  · exact hfree hc

theorem padded_ne_nil (value : Bytes) : padded value ≠ [] := by
  cases value with
  | nil => decide
  | cons b rest => simp [padded]

theorem escape_ne_nil (value : Bytes) : escape value ≠ [] := by
  intro hnil
  -- Nothing would be read from nothing.
  have hread := unescape_escape value
  rw [hnil] at hread
  exact padded_ne_nil value (Option.some.inj hread).symm

theorem eq_replicate_of_allPeriods {value : Bytes} (h : allPeriods value = true) :
    value = List.replicate value.length period := by
  refine List.eq_replicate_iff.mpr ⟨rfl, fun b hmem => ?_⟩
  exact eq_of_beq (List.all_eq_true.mp h b hmem)

end Uri

namespace Component

open Uri

theorem ofEscaped_escape (piece : List Char) (type : UInt16) (value : Bytes) :
    ofEscaped piece type (escape value) = .ok ⟨type, value⟩ := by
  unfold ofEscaped
  rw [unescape_escape]
  by_cases hall : allPeriods value = true
  · have hvalue := eq_replicate_of_allPeriods hall
    have hpadded : padded value = List.replicate (value.length + 3) period := by
      calc
        padded value = value ++ List.replicate 3 period := by rw [padded, if_pos hall]
        _ = List.replicate value.length period ++ List.replicate 3 period := by rw [← hvalue]
        _ = List.replicate (value.length + 3) period := List.replicate_append_replicate
    have hstill : allPeriods (padded value) = true := by
      rw [hpadded]
      exact List.all_eq_true.mpr fun b hmem => by simp [List.eq_of_mem_replicate hmem]
    have hlong : ¬ (padded value).length < 3 := by
      rw [hpadded, List.length_replicate]
      omega
    have hdrop : (padded value).drop 3 = value := by
      rw [hpadded, List.drop_replicate, Nat.add_sub_cancel, ← hvalue]
    simp only [hstill, if_true, if_neg hlong, hdrop]
  · have hsame : padded value = value := by
      rw [padded, if_neg hall, List.append_nil]
    simp only [hsame, if_neg hall]

end Component

end Bulletin
