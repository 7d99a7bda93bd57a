import Bulletin.Proofs.Uri.RoundTrip
import Mathlib.Data.List.Forall2

/-!
# Grammar — which texts are names

A text is cut at its slashes, and every piece that is left has to denote a component. This file gives
the grammar of texts by itself, without saying how they are read:

* `Uri.HexDigit`, `Uri.Decimal` — digits, and numbers written in them;
* `Uri.Decodes`, `Uri.WellEscaped` — the bytes that a text stands for, and the texts that stand for
  some;
* `Uri.Body` — the value of a component as text;
* `Uri.Denotes` — the three forms of a piece, each with the component that it denotes;
* `Uri.Pieces` — the pieces of a text.

It proves for each of them that reading follows it:

* `Uri.unescape_eq_some_iff`, `Component.ofEscaped_eq_ok_iff` — bodies;
* `Component.ofUriChars_eq_ok_iff` — pieces;
* `Name.uri_grammar` — whole texts.
-/

namespace Bulletin

namespace Uri

/-! ## Digits -/

/-- A hexadecimal digit of either case, and its value. -/
def HexDigit (c : Char) (n : Nat) : Prop :=
  n < 16 ∧ (c = Nat.digitChar n ∨ c = (Nat.digitChar n).toUpper)

theorem hexValue?_below : ∀ k < 128, ∀ n ∈ hexValue? (Char.ofNat k),
    n < 16 ∧ (Char.ofNat k = Nat.digitChar n ∨ Char.ofNat k = (Nat.digitChar n).toUpper) := by
  decide

theorem hexValue?_digitChar : ∀ n < 16,
    hexValue? (Nat.digitChar n) = some n ∧ hexValue? (Nat.digitChar n).toUpper = some n := by
  decide

theorem toNat_lt_of_hexValue? {c : Char} {n : Nat} (h : hexValue? c = some n) : c.toNat < 128 := by
  have hbound (last : Char) (hle : c ≤ last) : c.toNat ≤ last.toNat := hle
  unfold hexValue? at h
  split at h
  · rename_i hdigit
    exact Nat.lt_of_le_of_lt (hbound '9' hdigit.2) (by decide)
  split at h
  · rename_i hlower
    exact Nat.lt_of_le_of_lt (hbound 'f' hlower.2) (by decide)
  split at h
  · rename_i hupper
    exact Nat.lt_of_le_of_lt (hbound 'F' hupper.2) (by decide)
  · cases h

theorem hexValue?_eq_some_iff {c : Char} {n : Nat} : hexValue? c = some n ↔ HexDigit c n := by
  constructor
  · intro h
    -- All digits are among the first 128 characters.
    have hall := hexValue?_below c.toNat (toNat_lt_of_hexValue? h) n
    rw [Char.ofNat_toNat] at hall
    exact hall h
  · rintro ⟨hn, rfl | rfl⟩
    · exact (hexValue?_digitChar n hn).1
    · exact (hexValue?_digitChar n hn).2

theorem HexDigit.ne_percent {c : Char} {n : Nat} (h : HexDigit c n) : c ≠ '%' := by
  rintro rfl
  cases hexValue?_eq_some_iff.mpr h

/-- A nonempty run of decimal digits, and the number that it denotes. -/
structure Decimal (digits : List Char) (n : Nat) : Prop where
  nonempty : digits ≠ []
  decimal : ∀ c ∈ digits, c.isDigit = true
  value : Nat.ofDigitChars 10 digits 0 = n

theorem numberBelow?_eq_some_iff {bound n : Nat} {digits : List Char} :
    numberBelow? bound digits = some n ↔ Decimal digits n ∧ n < bound := by
  unfold numberBelow?
  split
  · rename_i hdigits
    obtain ⟨hne, hall⟩ := hdigits
    have hdecimal : Decimal digits n ↔ Nat.ofDigitChars 10 digits 0 = n :=
      ⟨Decimal.value, fun hvalue => ⟨hne, List.all_eq_true.mp hall, hvalue⟩⟩
    rw [hdecimal]
    simp only [Option.ite_none_right_eq_some, Option.some.injEq]
    constructor
    · rintro ⟨hbound, rfl⟩
      exact ⟨rfl, hbound⟩
    · rintro ⟨rfl, hbound⟩
      exact ⟨hbound, rfl⟩
  · rename_i hdigits
    simp only [reduceCtorEq, false_iff]
    rintro ⟨hdecimal, -⟩
    exact hdigits ⟨hdecimal.nonempty, List.all_eq_true.mpr hdecimal.decimal⟩

/-! ## Escapes -/

/-- The bytes that a text stands for: an escape stands for one byte, and any character but a percent
sign for its bytes in UTF-8. -/
inductive Decodes : List Char → Bytes → Prop where
  | nil : Decodes [] []
  | escape {high low : Char} {h l : Nat} {rest : List Char} {bytes : Bytes} :
      HexDigit high h → HexDigit low l → Decodes rest bytes →
      Decodes ('%' :: high :: low :: rest) (UInt8.ofNat (16 * h + l) :: bytes)
  | char {c : Char} {rest : List Char} {bytes : Bytes} :
      c ≠ '%' → Decodes rest bytes → Decodes (c :: rest) (String.utf8EncodeChar c ++ bytes)

/-- By induction along the reading: each turn takes an escape or a character off the text. -/
theorem decodes_of_unescapeAfter {found bytes : Bytes} {text : List Char}
    (h : unescapeAfter found text = some bytes) :
    ∃ decoded, Decodes text decoded ∧ bytes = found.reverse ++ decoded := by
  fun_induction unescapeAfter found text with
  | case1 found =>
      cases h
      exact ⟨[], .nil, (List.append_nil _).symm⟩
  | case2 found high low rest n m hlow hhigh ih =>
      obtain ⟨decoded, hrest, rfl⟩ := ih h
      refine ⟨UInt8.ofNat (16 * n + m) :: decoded, ?_, by simp⟩
      exact .escape (hexValue?_eq_some_iff.mp hhigh) (hexValue?_eq_some_iff.mp hlow) hrest
  | case3 => cases h
  | case4 => cases h
  | case5 found c rest _ hc ih =>
      obtain ⟨decoded, hrest, rfl⟩ := ih h
      exact ⟨String.utf8EncodeChar c ++ decoded, .char hc hrest, by simp⟩

theorem Decodes.unescapeAfter {text : List Char} {decoded : Bytes} (h : Decodes text decoded)
    (found : Bytes) : unescapeAfter found text = some (found.reverse ++ decoded) := by
  induction h generalizing found with
  | nil => simp [Uri.unescapeAfter]
  | escape hhigh hlow _ ih =>
      simp only [Uri.unescapeAfter, hexValue?_eq_some_iff.mpr hhigh, hexValue?_eq_some_iff.mpr hlow]
      rw [ih]
      simp
  | char hc _ ih =>
      rw [unescapeAfter_char hc, ih]
      simp

theorem unescape_eq_some_iff {text : List Char} {bytes : Bytes} :
    unescape text = some bytes ↔ Decodes text bytes := by
  constructor
  · intro h
    obtain ⟨decoded, hdecodes, rfl⟩ := decodes_of_unescapeAfter h
    exact hdecodes
  · exact fun h => h.unescapeAfter []

/-- Every percent sign is followed by two hexadecimal digits. -/
def WellEscaped (text : List Char) : Prop :=
  ∀ before after, text = before ++ '%' :: after →
    ∃ high low rest h l, after = high :: low :: rest ∧ HexDigit high h ∧ HexDigit low l

theorem WellEscaped.of_append (front : List Char) {text : List Char}
    (h : WellEscaped (front ++ text)) : WellEscaped text := by
  intro before after htext
  exact h (front ++ before) after (by rw [htext, List.append_assoc])

/-- A digit is no percent sign, so the percent signs of a text are those that start its escapes. -/
theorem Decodes.wellEscaped {text : List Char} {bytes : Bytes} (h : Decodes text bytes) :
    WellEscaped text := by
  induction h with
  | nil =>
      intro before after htext
      simp at htext
  | @escape high low _ _ rest _ hhigh hlow _ ih =>
      intro before after htext
      match before with
      | [] =>
          obtain ⟨-, rfl⟩ := List.cons.inj htext
          exact ⟨high, low, rest, _, _, rfl, hhigh, hlow⟩
      | [_] =>
          obtain ⟨-, htail⟩ := List.cons.inj htext
          exact absurd (List.cons.inj htail).1 hhigh.ne_percent
      | [_, _] =>
          obtain ⟨-, htail⟩ := List.cons.inj htext
          exact absurd (List.cons.inj (List.cons.inj htail).2).1 hlow.ne_percent
      | _ :: _ :: _ :: before =>
          obtain ⟨-, htail⟩ := List.cons.inj htext
          exact ih before after (List.cons.inj (List.cons.inj htail).2).2
  | @char c _ _ hc _ ih =>
      intro before after htext
      cases before with
      | nil => exact absurd (List.cons.inj htext).1 hc
      | cons _ before => exact ih before after (List.cons.inj htext).2

theorem WellEscaped.exists_decodes {text : List Char} (h : WellEscaped text) :
    ∃ bytes, Decodes text bytes := by
  match text with
  | [] => exact ⟨[], .nil⟩
  | c :: text =>
      by_cases hc : c = '%'
      · subst hc
        obtain ⟨high, low, rest, n, m, rfl, hhigh, hlow⟩ := h [] text rfl
        have hrest : WellEscaped rest := h.of_append ['%', high, low]
        obtain ⟨bytes, hbytes⟩ := hrest.exists_decodes
        exact ⟨_, .escape hhigh hlow hbytes⟩
      · have hrest : WellEscaped text := h.of_append [c]
        obtain ⟨bytes, hbytes⟩ := hrest.exists_decodes
        exact ⟨_, .char hc hbytes⟩
termination_by text.length

/-- The texts without a stray percent sign are those that stand for bytes, each for one string. -/
theorem wellEscaped_iff {text : List Char} : WellEscaped text ↔ ∃! bytes, Decodes text bytes := by
  constructor
  · intro h
    obtain ⟨bytes, hbytes⟩ := h.exists_decodes
    refine ⟨bytes, hbytes, fun other hother => ?_⟩
    have hsame := unescape_eq_some_iff.mpr hother
    rw [unescape_eq_some_iff.mpr hbytes] at hsame
    exact (Option.some.inj hsame).symm
  · rintro ⟨bytes, hbytes, -⟩
    exact hbytes.wellEscaped

/-! ## Bodies -/

/-- The value that a text stands for as the body of a component: its bytes, less three periods if all
of them are periods. No byte at all, one period and two are reserved. -/
def Body (text : List Char) (value : Bytes) : Prop :=
  ∃ bytes, Decodes text bytes ∧ bytes ∉ [[], [period], [period, period]] ∧
    ((∀ b ∈ bytes, b = period) ∧ value = bytes.drop 3 ∨ (∃ b ∈ bytes, b ≠ period) ∧ value = bytes)

theorem allPeriods_iff {value : Bytes} : allPeriods value = true ↔ ∀ b ∈ value, b = period := by
  simp [allPeriods]

theorem not_allPeriods_iff {value : Bytes} :
    ¬ allPeriods value = true ↔ ∃ b ∈ value, b ≠ period := by
  rw [allPeriods_iff]
  push Not
  rfl

/-- The reserved values are the short ones of periods only. -/
theorem mem_reserved_iff {value : Bytes} :
    value ∈ [[], [period], [period, period]] ↔ allPeriods value = true ∧ value.length < 3 := by
  constructor
  · intro hmem
    simp only [List.mem_cons, List.not_mem_nil, or_false] at hmem
    rcases hmem with rfl | rfl | rfl
    · decide
    · decide
    · decide
  · rintro ⟨hall, hshort⟩
    rw [eq_replicate_of_allPeriods hall]
    match value.length, hshort with
    | 0, _ => decide
    | 1, _ => decide
    | 2, _ => decide

end Uri

namespace Component

open Uri

theorem ofEscaped_eq_ok_iff {piece body : List Char} {type : UInt16} {c : Component} :
    ofEscaped piece type body = .ok c ↔ ∃ value, Body body value ∧ c = ⟨type, value⟩ := by
  constructor
  · intro h
    unfold ofEscaped at h
    split at h
    · cases h
    rename_i bytes hbytes
    have hdecodes := unescape_eq_some_iff.mp hbytes
    split at h
    · rename_i hall
      split at h
      · cases h
      · rename_i hlong
        cases h
        refine ⟨bytes.drop 3, ⟨bytes, hdecodes, ?_, ?_⟩, rfl⟩
        · exact fun hmem => hlong (mem_reserved_iff.mp hmem).2
        · exact Or.inl ⟨allPeriods_iff.mp hall, rfl⟩
    · rename_i hother
      cases h
      refine ⟨bytes, ⟨bytes, hdecodes, ?_, ?_⟩, rfl⟩
      · exact fun hmem => hother (mem_reserved_iff.mp hmem).1
      · exact Or.inr ⟨not_allPeriods_iff.mp hother, rfl⟩
  · rintro ⟨value, ⟨bytes, hdecodes, hfree, hvalue⟩, rfl⟩
    simp only [ofEscaped, unescape_eq_some_iff.mpr hdecodes]
    rcases hvalue with ⟨hperiods, rfl⟩ | ⟨hother, rfl⟩
    · have hall := allPeriods_iff.mpr hperiods
      have hlong : ¬ bytes.length < 3 := fun hshort => hfree (mem_reserved_iff.mpr ⟨hall, hshort⟩)
      rw [if_pos hall, if_neg hlong]
    · rw [if_neg (not_allPeriods_iff.mpr hother)]

end Component

/-! ## Pieces -/

namespace Uri

/-- The component that a piece denotes. Digits in front of an equals sign always give the type, and a
piece that starts like a timestamp is nothing else. -/
inductive Denotes : List Char → Component → Prop where
  | stamp {sign digits : List Char} {n : Nat} :
      sign = [] ∨ sign = ['+'] → Decimal digits n → n < 2 ^ 64 →
      Denotes ('t' :: '=' :: (sign ++ digits)) (.ofTimestamp (.ofNat n))
  | typed {digits body : List Char} {n : Nat} {value : Bytes} :
      Decimal digits n → 1 ≤ n → n ≤ 65535 → Body body value →
      Denotes (digits ++ '=' :: body) ⟨UInt16.ofNat n, value⟩
  | generic {piece : List Char} {value : Bytes} :
      ¬ ['t', '='] <+: piece →
      (∀ digits body n, Decimal digits n → piece ≠ digits ++ '=' :: body) → Body piece value →
      Denotes piece ⟨8, value⟩

theorem dropPlus_cases (text : List Char) :
    ∃ sign, (sign = [] ∨ sign = ['+']) ∧ text = sign ++ dropPlus text := by
  unfold dropPlus
  split
  · exact ⟨['+'], Or.inr rfl, rfl⟩
  · exact ⟨[], Or.inl rfl, rfl⟩

theorem Decimal.dropPlus_append {digits : List Char} {n : Nat} (h : Decimal digits n)
    {sign : List Char} (hsign : sign = [] ∨ sign = ['+']) : dropPlus (sign ++ digits) = digits := by
  rcases hsign with rfl | rfl
  · rw [List.nil_append]
    unfold dropPlus
    split
    · -- A plus sign is no digit.
      rename_i rest
      have hplus := h.decimal '+' List.mem_cons_self
      cases hplus
    · rfl
  · rfl

theorem Decimal.splitType {digits : List Char} {n : Nat} (h : Decimal digits n)
    (body : List Char) : splitType (digits ++ '=' :: body) = (some digits, body) :=
  splitType_typed body h.nonempty (List.all_eq_true.mpr h.decimal)

/-- A piece is split behind the digits of its type, or it has none and stays whole. -/
theorem splitType_cases (piece : List Char) :
    (∃ digits body n, Decimal digits n ∧ piece = digits ++ '=' :: body ∧
      splitType piece = (some digits, body)) ∨
      splitType piece = (none, piece) := by
  have hsplit := List.takeWhile_append_dropWhile (p := (· != '=')) (l := piece)
  unfold splitType
  rw [List.span_eq_takeWhile_dropWhile]
  split
  · rename_i head mark body hspan
    obtain ⟨hhead, htail⟩ := Prod.mk.inj hspan
    have hmark : mark = '=' := by
      have hstop := List.head_dropWhile_not (· != '=') (l := piece) (by simp [htail])
      simpa [htail] using hstop
    split
    · rename_i hdigits
      refine Or.inl ⟨head, body, _, ⟨hdigits.1, List.all_eq_true.mp hdigits.2, rfl⟩, ?_, rfl⟩
      rw [← hsplit, hhead, htail, hmark]
    · exact Or.inr rfl
  · exact Or.inr rfl

end Uri

namespace Component

open Uri

/-- A piece is read as a component exactly when it denotes it. -/
theorem ofUriChars_eq_ok_iff {piece : List Char} {c : Component} :
    ofUriChars piece = .ok c ↔ Denotes piece c := by
  constructor
  · intro h
    unfold ofUriChars at h
    split at h
    · rename_i text
      split at h
      · rename_i n hnumber
        cases h
        obtain ⟨hdecimal, hbound⟩ := numberBelow?_eq_some_iff.mp hnumber
        obtain ⟨sign, hsign, htext⟩ := dropPlus_cases text
        rw [htext]
        exact .stamp hsign hdecimal hbound
      · cases h
    · rename_i hother
      rcases splitType_cases piece with ⟨digits, body, n, hdecimal, rfl, hsplit⟩ | hsplit
      · simp only [hsplit] at h
        split at h
        · cases h
        · rename_i type hpositive hnumber
          obtain ⟨value, hbody, rfl⟩ := ofEscaped_eq_ok_iff.mp h
          obtain ⟨hdecimal, hbound⟩ := numberBelow?_eq_some_iff.mp hnumber
          exact .typed hdecimal (Nat.pos_of_ne_zero hpositive) (Nat.le_of_lt_succ hbound) hbody
        · cases h
      · simp only [hsplit] at h
        obtain ⟨value, hbody, rfl⟩ := ofEscaped_eq_ok_iff.mp h
        refine .generic ?_ ?_ hbody
        · rintro ⟨text, rfl⟩
          exact hother text rfl
        · rintro digits body n hdecimal rfl
          rw [hdecimal.splitType] at hsplit
          cases hsplit
  · intro h
    cases h with
    | @stamp sign digits n hsign hdecimal hbound =>
        have hnumber : numberBelow? UInt64.size digits = some n :=
          numberBelow?_eq_some_iff.mpr ⟨hdecimal, hbound⟩
        simp only [ofUriChars, hdecimal.dropPlus_append hsign, hnumber]
    | @typed digits body n value hdecimal hpositive hbound hbody =>
        have hnumber : numberBelow? UInt16.size digits = some n :=
          numberBelow?_eq_some_iff.mpr ⟨hdecimal, Nat.lt_succ_of_le hbound⟩
        rw [ofUriChars_typed body hdecimal.nonempty (List.all_eq_true.mpr hdecimal.decimal) hnumber,
          if_neg (Nat.ne_of_gt hpositive)]
        exact ofEscaped_eq_ok_iff.mpr ⟨value, hbody, rfl⟩
    | generic hstamp huntyped hbody =>
        unfold ofUriChars
        split
        · rename_i text
          exact absurd ⟨text, rfl⟩ hstamp
        · rcases splitType_cases piece with ⟨digits, body, n, hdecimal, hpiece, -⟩ | hsplit
          · exact absurd hpiece (huntyped digits body n hdecimal)
          · rw [hsplit]
            exact ofEscaped_eq_ok_iff.mpr ⟨_, hbody, rfl⟩

end Component

/-! ## Names -/

namespace Uri

def scheme : List Char := ['n', 'd', 'n', ':']

/-- The pieces of a text: one scheme in front is left out, the rest is cut at every slash, and of the
segments between slashes the empty ones are left out. -/
def Pieces (text : List Char) (pieces : List (List Char)) : Prop :=
  ∃ path segments, (text = scheme ++ path ∨ text = path ∧ ¬ scheme <+: text) ∧
    ['/'].intercalate segments = path ∧ segments ≠ [] ∧ (∀ segment ∈ segments, '/' ∉ segment) ∧
    pieces = segments.filter (· ≠ [])

theorem dropScheme_eq_iff {text path : List Char} :
    text = scheme ++ path ∨ text = path ∧ ¬ scheme <+: text ↔ Name.dropScheme text = path := by
  unfold Name.dropScheme
  split
  · rename_i rest
    constructor
    · rintro (hscheme | ⟨-, hnone⟩)
      · have hcancel : scheme ++ rest = scheme ++ path := hscheme
        exact List.append_cancel_left hcancel
      · exact absurd ⟨rest, rfl⟩ hnone
    · rintro rfl
      exact Or.inl rfl
  · rename_i hnone
    constructor
    · rintro (rfl | ⟨rfl, -⟩)
      · exact absurd rfl (hnone path)
      · rfl
    · rintro rfl
      refine Or.inr ⟨rfl, ?_⟩
      rintro ⟨rest, rfl⟩
      exact hnone rest rfl

theorem slash_not_mem_of_mem_splitOn {text segment : List Char} (h : segment ∈ text.splitOn '/') :
    '/' ∉ segment := by
  induction text generalizing segment with
  | nil =>
      rw [List.splitOn_nil, List.mem_singleton] at h
      exact h ▸ List.not_mem_nil
  | cons c rest ih =>
      rw [List.splitOn_cons_eq_if_modifyHead] at h
      split at h
      · rcases List.mem_cons.mp h with rfl | hlater
        · exact List.not_mem_nil
        · exact ih hlater
      · rename_i hc
        cases hrest : rest.splitOn '/' with
        | nil => exact absurd hrest (List.splitOn_ne_nil '/' rest)
        | cons first more =>
            rw [hrest, List.modifyHead_cons] at h
            rcases List.mem_cons.mp h with rfl | hlater
            · have hfirst : '/' ∉ first := ih (hrest ▸ List.mem_cons_self)
              have hne : '/' ≠ c := fun hsame => hc (hsame ▸ beq_self_eq_true '/')
              exact List.not_mem_cons_of_ne_of_not_mem hne hfirst
            · exact ih (hrest ▸ List.mem_cons_of_mem first hlater)

/-- Cutting at slashes is the inverse of joining with slashes. -/
theorem pieces_iff {text : List Char} {pieces : List (List Char)} :
    Pieces text pieces ↔ pieces = Name.uriPieces text := by
  constructor
  · rintro ⟨path, segments, hpath, hjoined, hsome, hslashless, rfl⟩
    rw [Name.uriPieces, dropScheme_eq_iff.mp hpath, ← hjoined,
      List.splitOn_intercalate '/' hslashless hsome]
  · rintro rfl
    refine ⟨Name.dropScheme text, (Name.dropScheme text).splitOn '/', dropScheme_eq_iff.mpr rfl,
      List.intercalate_splitOn '/', List.splitOn_ne_nil '/' _, ?_, rfl⟩
    exact fun segment hmem => slash_not_mem_of_mem_splitOn hmem

theorem Denotes.unique {piece : List Char} {c c' : Component} (h : Denotes piece c)
    (h' : Denotes piece c') : c = c' := by
  have hsame := Component.ofUriChars_eq_ok_iff.mpr h'
  rw [Component.ofUriChars_eq_ok_iff.mpr h] at hsame
  exact Except.ok.inj hsame

/-- Pieces that denote something, each by itself, denote components in their order. -/
theorem exists_denoted_iff {pieces : List (List Char)} :
    (∃ components, List.Forall₂ Denotes pieces components) ↔
      ∀ piece ∈ pieces, ∃! c, Denotes piece c := by
  induction pieces with
  | nil => simp
  | cons piece rest ih =>
      rw [List.forall_mem_cons, ← ih]
      constructor
      · rintro ⟨_, _ | ⟨hfirst, hrest⟩⟩
        exact ⟨⟨_, hfirst, fun _ hother => hother.unique hfirst⟩, _, hrest⟩
      · rintro ⟨⟨c, hfirst, -⟩, components, hrest⟩
        exact ⟨c :: components, .cons hfirst hrest⟩

end Uri

namespace Name

open Uri

theorem ofUri_eq_ok_iff_denotes {text : String} {name : Name} :
    ofUri text = .ok name ↔ List.Forall₂ Denotes (uriPieces text.toList) name.components := by
  rw [ofUri_eq_ok_iff, mapM_eq_ok_iff]
  simp only [Component.ofUriChars_eq_ok_iff]

theorem invalidUri_of_ofUri {text : String} {e : FormatError} (h : ofUri text = .error e) :
    ∃ fault, e = .invalidUri fault := by
  unfold ofUri at h
  cases hread : ofUriChars text.toList with
  | ok name =>
      rw [hread] at h
      cases h
  | error fault =>
      rw [hread] at h
      cases h
      exact ⟨fault, rfl⟩

/-- The texts that are read as names, and nothing else is read. A text has its pieces, which are told
without reading it. It is read as a name exactly when every piece denotes a component, and then the
name has these components in order; whatever else is a fault of the text. A body is the text of bytes
exactly when two hexadecimal digits follow each of its percent signs. -/
theorem uri_grammar (text : String) :
    ∃ pieces, (∀ other, Pieces text.toList other ↔ other = pieces) ∧
      (∀ name : Name, ofUri text = .ok name ↔ List.Forall₂ Denotes pieces name.components) ∧
      ((∃ name, ofUri text = .ok name) ↔ ∀ piece ∈ pieces, ∃! c, Denotes piece c) ∧
      (∀ e, ofUri text = .error e → ∃ fault, e = .invalidUri fault) ∧
      ∀ body, WellEscaped body ↔ ∃! bytes, Decodes body bytes := by
  refine ⟨uriPieces text.toList, fun _ => pieces_iff, fun _ => ofUri_eq_ok_iff_denotes, ?_,
    fun _ => invalidUri_of_ofUri, fun _ => wellEscaped_iff⟩
  rw [← exists_denoted_iff]
  constructor
  · rintro ⟨name, hread⟩
    exact ⟨name.components, ofUri_eq_ok_iff_denotes.mp hread⟩
  · rintro ⟨components, hdenotes⟩
    exact ⟨⟨components⟩, ofUri_eq_ok_iff_denotes.mpr hdenotes⟩

/-- An equals sign without a type in front, a type with leading zeros, a character of three bytes beside
its escapes, a signed timestamp, an escape that hides a timestamp, and periods only. A timestamp without
digits is refused. -/
theorem uri_grammar_lookalikes :
    let text := "ndn:/=a//007=%e2%82%AC€/t=+05/t%3D/..."
    let pieces := ["=a", "007=%e2%82%AC€", "t=+05", "t%3D", "..."].map String.toList
    let name : Name :=
      ⟨[.generic [61, 97], ⟨7, [226, 130, 172, 226, 130, 172]⟩, .ofTimestamp ⟨5⟩, .generic [116, 61],
        .generic []]⟩
    ofUri text = .ok name ∧ Pieces text.toList pieces ∧
      List.Forall₂ Denotes pieces name.components ∧
      (∃ fault, ofUri "t=" = .error (.invalidUri fault)) ∧ ¬ ∃! c, Denotes ['t', '='] c := by
  intro text pieces name
  have hread : ofUri text = .ok name := by decide
  have hpieces : Pieces text.toList pieces :=
    ⟨"/=a//007=%e2%82%AC€/t=+05/t%3D/...".toList,
      ["", "=a", "", "007=%e2%82%AC€", "t=+05", "t%3D", "..."].map String.toList,
      Or.inl (by decide), by decide, by decide, by decide, by decide⟩
  obtain ⟨found, hfound, hname, -, -, -⟩ := uri_grammar text
  have hsame : pieces = found := (hfound pieces).mp hpieces
  obtain ⟨empty, hempty, -, hsome, hfault, -⟩ := uri_grammar "t="
  have herror : ofUri "t=" = .error (.invalidUri (.badTimestamp "t=")) := by decide
  have hlone : [['t', '=']] = empty :=
    (hempty _).mp ⟨['t', '='], [['t', '=']], Or.inr (by decide), by decide, by decide, by decide,
      by decide⟩
  refine ⟨hread, hpieces, hsame ▸ (hname name).mp hread, ?_, ?_⟩
  · obtain ⟨fault, hsame⟩ := hfault _ herror
    exact ⟨fault, hsame ▸ herror⟩
  · intro hdenotes
    obtain ⟨name, hok⟩ := hsome.mpr (by simpa [← hlone] using hdenotes)
    rw [herror] at hok
    cases hok

end Name

end Bulletin
