import Bulletin.Json.Shape
import Bulletin.Proofs.Uri.RoundTrip
import Mathlib.Data.List.Chain

/-!
# Lexing — tokens as text and back

Compact text has nothing between its tokens, so each token has to tell its own end. All do but the
numbers, which end where a character comes that cannot go on with them. This file defines:

* `readString_escapeChar`, `readString_text` — a character, and a text, in front of anything;
* `Stops`, `readNumber_toDigits` — a number in front of what does not go on with it;
* `Token.Plain`, `Token.Apart` — a token that is written, and one that may stand right after it;
* `Token.readToken_chars` — a token is read back from the front of a text;
* `Written`, `tokenize_chars` — so tokens that may stand side by side are found again in their text.
-/

namespace Bulletin.Json

variable {found : List Glyph} {rest : List Char}

/-! ## Strings -/

theorem hexValue?_hexDigit (n : Nat) : hexValue? (Bytes.hexDigit n) = some (n % 16) := by
  have hbelow : ∀ m < 16, hexValue? (Bytes.hexDigit m) = some m := by decide
  have hmod : Bytes.hexDigit n = Bytes.hexDigit (n % 16) := by simp [Bytes.hexDigit]
  rw [hmod]
  exact hbelow (n % 16) (Nat.mod_lt n (by decide))

/-- A code below those of the surrogates is a character of its own, whatever stands before it. -/
theorem pushCode_of_lt {code : Nat} (h : code < 0xD800) :
    pushCode code found = .scalar (Char.ofNat code) :: found := by
  have hleading : isLeading code = false := by
    simp [isLeading]
    omega
  have htrailing : isTrailing code = false := by
    simp [isTrailing]
    omega
  unfold pushCode
  split <;> simp [hleading, htrailing]

theorem hexCode?_of_lt {code : Nat} (h : code < 32) :
    hexCode? '0' '0' (Bytes.hexDigit (code / 16)) (Bytes.hexDigit code) = some code := by
  have hzero : hexValue? '0' = some 0 := by decide
  have hvalue : 16 * (code / 16 % 16) + code % 16 = code := by omega
  simp [hexCode?, hzero, hexValue?_hexDigit, hvalue]

theorem readString_plain {c : Char} (hquote : c ≠ '"') (hescape : c ≠ '\\')
    (hcode : ¬ c.toNat < 32) :
    readString found (c :: rest) = readString (.scalar c :: found) rest := by
  rw [readString]
  · simp [hescape, hcode]
  · exact hquote
  · intro a b c' d more hsame
    exact absurd hsame hescape
  · intro letter more hsame
    exact absurd hsame hescape

theorem readString_escapeChar (c : Char) :
    readString found (escapeChar c ++ rest) = readString (.scalar c :: found) rest := by
  unfold escapeChar
  split_ifs with hquote hescape hback hfeed hline hreturn htab hcode
  -- Seven characters have a letter that stands for them.
  iterate 7
    · subst_vars
      rfl
  · -- The other control characters are written by their code.
    simp only [List.cons_append, List.nil_append, readString, hexCode?_of_lt hcode]
    rw [pushCode_of_lt (by omega), Char.ofNat_toNat]
  · exact readString_plain hquote hescape hcode

/-- A text is read up to its closing quote. By induction on the text, after whatever was found. -/
theorem readString_text (text : List Char) :
    readString found ((glyphsOf text).flatMap Glyph.chars ++ '"' :: rest) =
      some (found.reverse ++ glyphsOf text, rest) := by
  induction text generalizing found with
  | nil => simp [glyphsOf, readString]
  | cons c text ih =>
      calc
        readString found ((glyphsOf (c :: text)).flatMap Glyph.chars ++ '"' :: rest)
            = readString found
                (escapeChar c ++ ((glyphsOf text).flatMap Glyph.chars ++ '"' :: rest)) := by
              simp [glyphsOf, Glyph.chars]
        _ = some ((.scalar c :: found).reverse ++ glyphsOf text, rest) := by
              rw [readString_escapeChar, ih]
        _ = some (found.reverse ++ glyphsOf (c :: text), rest) := by simp [glyphsOf]

/-! ## Numbers -/

/-- A number in front of this text ends where the text begins. -/
def Stops (rest : List Char) : Prop :=
  ∀ c ∈ rest.head?, c.isDigit = false ∧ c ∉ ['.', 'e', 'E']

theorem stops_nil : Stops [] := by
  intro c hmem
  cases hmem

theorem stops_cons {c : Char} (hdigit : c.isDigit = false) (hmark : c ∉ ['.', 'e', 'E']) :
    Stops (c :: rest) := by
  intro first hmem
  cases hmem
  exact ⟨hdigit, hmark⟩

/-- A number is written without leading zeros, zero itself apart. -/
theorem head_toDigits_ne_zero {n : Nat} (h : n ≠ 0) : (Nat.toDigits 10 n).head? ≠ some '0' := by
  induction n using Nat.strongRecOn with
  | ind n ih =>
      by_cases hsmall : n < 10
      · rw [Nat.toDigits_of_lt_base hsmall, List.head?_cons]
        intro hzero
        exact h (Nat.digitChar_eq_zero.mp (Option.some.inj hzero))
      · -- The first digit is that of the number without its last digit.
        have hleading := ih (n / 10) (by omega) (by omega)
        rw [Nat.toDigits_of_base_le (by decide) (by omega),
          List.head?_append_of_ne_nil _ Nat.toDigits_ne_nil]
        exact hleading

theorem readDigits_toDigits (n : Nat) (hrest : Stops rest) :
    readDigits (Nat.toDigits 10 n ++ rest) = some (Nat.toDigits 10 n, rest) := by
  have hdigits : ∀ c ∈ Nat.toDigits 10 n, c.isDigit = true :=
    List.all_eq_true.mp (Uri.all_isDigit_toDigits n)
  have hnone : rest.takeWhile Char.isDigit = [] ∧ rest.dropWhile Char.isDigit = rest := by
    cases rest with
    | nil => exact ⟨rfl, rfl⟩
    | cons c more => simp [(hrest c rfl).1]
  have hspan : (Nat.toDigits 10 n ++ rest).span Char.isDigit = (Nat.toDigits 10 n, rest) := by
    rw [List.span_eq_takeWhile_dropWhile, List.takeWhile_append_of_pos hdigits,
      List.dropWhile_append_of_pos hdigits, hnone.1, hnone.2, List.append_nil]
  unfold readDigits
  rw [hspan]
  split
  · rename_i hempty
    exact absurd (congrArg Prod.fst hempty) Nat.toDigits_ne_nil
  · rename_i hfound
    cases hfound
    rfl

theorem readWhole_toDigits (n : Nat) (hrest : Stops rest) :
    readWhole (Nat.toDigits 10 n ++ rest) = some (Nat.toDigits 10 n, rest) := by
  unfold readWhole
  rw [readDigits_toDigits n hrest]
  split
  · -- More digits behind a zero would be a number other than zero that starts with it.
    rename_i next more _ hzero
    have hdigits : Nat.toDigits 10 n = '0' :: next :: more :=
      congrArg Prod.fst (Option.some.inj hzero)
    by_cases hn : n = 0
    · rw [hn, Nat.toDigits_zero] at hdigits
      cases hdigits
    · exact absurd (by rw [hdigits]; rfl) (head_toDigits_ne_zero hn)
  · rfl

theorem readFraction_of_stops (hrest : Stops rest) : readFraction rest = some ([], rest) := by
  unfold readFraction
  split
  · exact absurd (by decide) (hrest '.' rfl).2
  · rfl

theorem readExponent_of_stops (hrest : Stops rest) : readExponent rest = some ([], rest) := by
  cases rest with
  | nil => rfl
  | cons c more =>
      have hmark : ¬ (c = 'e' ∨ c = 'E') := by
        have hother := (hrest c rfl).2
        grind
      rw [readExponent, if_neg hmark]

theorem readMagnitude_toDigits (n : Nat) (hrest : Stops rest) :
    readMagnitude (Nat.toDigits 10 n ++ rest) = some (Nat.toDigits 10 n, [], rest) := by
  simp [readMagnitude, readWhole_toDigits n hrest, readFraction_of_stops hrest,
    readExponent_of_stops hrest]

/-- The first digit of a number, and the others. -/
theorem toDigits_eq_cons (n : Nat) :
    ∃ first more, Nat.toDigits 10 n = first :: more ∧ first.isDigit = true := by
  obtain ⟨first, more, hdigits⟩ := List.exists_cons_of_ne_nil (Nat.toDigits_ne_nil (n := n) (b := 10))
  refine ⟨first, more, hdigits, List.all_eq_true.mp (Uri.all_isDigit_toDigits n) first ?_⟩
  rw [hdigits]
  exact List.mem_cons_self

theorem readNumber_toDigits (n : Nat) (hrest : Stops rest) :
    readNumber (Nat.toDigits 10 n ++ rest) = some (.natural n, rest) := by
  have hmagnitude := readMagnitude_toDigits n hrest
  have hvalue : Nat.ofDigitChars 10 (Nat.toDigits 10 n) 0 = n := Nat.ofDigitChars_ten_toDigits
  unfold readNumber
  split
  · -- A sign is no digit.
    rename_i text hsigned
    obtain ⟨first, more, hdigits, hfirst⟩ := toDigits_eq_cons n
    rw [hdigits] at hsigned
    have hsign : first = '-' := (List.cons.inj hsigned).1
    rw [hsign] at hfirst
    cases hfirst
  · simp [hmagnitude, hvalue]

/-- A digit starts a number and nothing else. -/
theorem readToken_of_isDigit {first : Char} (hfirst : first.isDigit = true) :
    readToken (first :: rest) = readNumber (first :: rest) := by
  have hother {c : Char} {later : List Char} (hc : c.isDigit = false) :
      first :: rest ≠ c :: later := by
    intro hsame
    rw [(List.cons.inj hsame).1, hc] at hfirst
    cases hfirst
  rw [readToken]
  · exact List.cons_ne_nil first rest
  all_goals
    intro later
    exact hother (by decide)

theorem isBlank_of_isDigit {c : Char} (h : c.isDigit = true) : isBlank c = false := by
  rw [isBlank, Bool.eq_false_iff]
  intro hblank
  simp only [Bool.or_eq_true, beq_iff_eq] at hblank
  rcases hblank with ((rfl | rfl) | rfl) | rfl <;> cases h

/-! ## Tokens -/

namespace Token

/-- A token as values are written with: a text of whole characters, a number of digits only. -/
def Plain : Token → Prop
  | number _ => False
  | string glyphs => ∃ text, glyphs = glyphsOf text
  | _ => True

def isNumeral : Token → Bool
  | natural _ | number _ => true
  | _ => false

/-- Whether the token is a bracket, a comma or a colon. -/
def isMark : Token → Bool
  | openArray | closeArray | openObject | closeObject | comma | colon => true
  | _ => false

/-- The second token may stand right after the first: after a number only a mark may. -/
def Apart (a b : Token) : Prop :=
  a.isNumeral = true → b.isMark = true

variable {t : Token}

theorem isNumeral_of_isMark (h : t.isMark = true) : t.isNumeral = false := by
  cases t with
  | openArray | closeArray | openObject | closeObject | comma | colon => rfl
  | null | boolean _ | natural _ | number _ | string _ => cases h

theorem plain_of_isMark (h : t.isMark = true) : t.Plain := by
  cases t with
  | openArray | closeArray | openObject | closeObject | comma | colon => trivial
  | null | boolean _ | natural _ | number _ | string _ => cases h

theorem stops_of_isMark (h : t.isMark = true) : Stops (t.chars ++ rest) := by
  cases t with
  | openArray | closeArray | openObject | closeObject | comma | colon =>
      exact stops_cons (by decide) (by decide)
  | null | boolean _ | natural _ | number _ | string _ => cases h

/-- No token is written as nothing, or starts with what is skipped between tokens. -/
theorem chars_eq_cons (h : t.Plain) :
    ∃ first more, t.chars = first :: more ∧ isBlank first = false := by
  cases t with
  | openArray | closeArray | openObject | closeObject | comma | colon | null | string _ =>
      exact ⟨_, _, rfl, by decide⟩
  | boolean value => cases value <;> exact ⟨_, _, rfl, by decide⟩
  | number _ => cases h
  | natural n =>
      obtain ⟨first, more, hdigits, hfirst⟩ := toDigits_eq_cons n
      exact ⟨first, more, hdigits, isBlank_of_isDigit hfirst⟩

/-- A token is read back from the front of a text; a number needs a text that does not go on with it. -/
theorem readToken_chars (h : t.Plain) (hrest : t.isNumeral = true → Stops rest) :
    readToken (t.chars ++ rest) = some (t, rest) := by
  cases t with
  | openArray | closeArray | openObject | closeObject | comma | colon | null => rfl
  | boolean value => cases value <;> rfl
  | number _ => cases h
  | natural n =>
      obtain ⟨first, more, hdigits, hfirst⟩ := toDigits_eq_cons n
      have hnumber := readNumber_toDigits n (hrest rfl)
      rw [chars, hdigits, List.cons_append, readToken_of_isDigit hfirst, ← List.cons_append, ← hdigits,
        hnumber]
  | string glyphs =>
      obtain ⟨text, rfl⟩ := h
      have htext : (string (glyphsOf text)).chars ++ rest =
          '"' :: ((glyphsOf text).flatMap Glyph.chars ++ '"' :: rest) := by simp [chars]
      rw [htext, readToken, readString_text]
      rfl

end Token

/-! ## Texts -/

open Token

variable {t : Token} {tokens : List Token}

/-- Tokens as values are written with: each is plain, and none runs into the next one. -/
structure Written (tokens : List Token) : Prop where
  plain : ∀ t ∈ tokens, t.Plain
  apart : tokens.IsChain Apart

namespace Written

theorem nil : Written [] :=
  ⟨List.forall_mem_nil _, .nil⟩

theorem singleton (h : t.Plain) : Written [t] :=
  ⟨List.forall_mem_singleton.mpr h, .singleton t⟩

theorem head (h : Written (t :: tokens)) : t.Plain :=
  h.plain t List.mem_cons_self

theorem tail (h : Written (t :: tokens)) : Written tokens :=
  ⟨fun later hmem => h.plain later (List.mem_cons_of_mem t hmem), h.apart.tail⟩

/-- A mark may stand between any tokens: it ends what is in front of it, and its own end is known. -/
theorem append_mark {before later : List Token} {mark : Token} (hmark : mark.isMark = true)
    (hbefore : Written before) (hlater : Written later) : Written (before ++ mark :: later) where
  plain := by
    intro t hmem
    rcases List.mem_append.mp hmem with hfront | hback
    · exact hbefore.plain t hfront
    · rcases List.mem_cons.mp hback with rfl | hbehind
      · exact plain_of_isMark hmark
      · exact hlater.plain t hbehind
  apart := by
    refine hbefore.apart.append (hlater.apart.cons ?_) ?_
    · intro next _ hnumeral
      rw [isNumeral_of_isMark hmark] at hnumeral
      cases hnumeral
    · intro last _ first hfirst _
      cases hfirst
      exact hmark

/-- A number is followed by nothing, or by a mark. -/
theorem stops (h : Written (t :: tokens)) (hnumeral : t.isNumeral = true) :
    Stops (tokens.flatMap Token.chars) := by
  cases tokens with
  | nil => exact stops_nil
  | cons next tokens =>
      rw [List.flatMap_cons]
      exact stops_of_isMark ((List.isChain_cons_cons.mp h.apart).1 hnumeral)

/-- Every token takes at least one character. -/
theorem length_le (h : Written tokens) : tokens.length ≤ (tokens.flatMap Token.chars).length := by
  induction tokens with
  | nil => exact Nat.le_refl 0
  | cons t tokens ih =>
      obtain ⟨first, more, hchars, -⟩ := chars_eq_cons h.head
      have hlater := ih h.tail
      rw [List.flatMap_cons, List.length_append, hchars, List.length_cons, List.length_cons]
      omega

end Written

/-- One turn of the tokenizer takes one token off the text. -/
theorem tokenizeAfter_chars (h : t.Plain) (hrest : t.isNumeral = true → Stops rest) (count : Nat)
    (before : List Token) :
    tokenizeAfter (count + 1) before (t.chars ++ rest) = tokenizeAfter count (t :: before) rest := by
  obtain ⟨first, more, hchars, hblank⟩ := chars_eq_cons h
  have hread := readToken_chars h hrest
  -- The token starts right here, and there is nothing to skip.
  have hskip : (t.chars ++ rest).dropWhile isBlank = t.chars ++ rest := by
    rw [hchars, List.cons_append, List.dropWhile_cons_of_neg (by simp [hblank])]
  rw [hchars, List.cons_append] at hread hskip ⊢
  simp only [tokenizeAfter, hskip, hread]

/-- By induction on the tokens: each turn takes one of them, and as many turns as tokens are enough. -/
theorem tokenizeAfter_flatMap (h : Written tokens) (spare : Nat) (before : List Token) :
    tokenizeAfter (tokens.length + (spare + 1)) before (tokens.flatMap Token.chars) =
      some (before.reverse ++ tokens) := by
  induction tokens generalizing before with
  | nil => simp [tokenizeAfter]
  | cons t tokens ih =>
      have hcount : (t :: tokens).length + (spare + 1) = tokens.length + (spare + 1) + 1 := by
        rw [List.length_cons]
        omega
      rw [List.flatMap_cons, hcount, tokenizeAfter_chars h.head h.stops, ih h.tail]
      simp

/-- Tokens that may stand side by side are found again in their text. -/
theorem tokenize_chars (h : Written tokens) :
    tokenize (tokens.flatMap Token.chars) = some tokens := by
  -- The tokenizer may take one turn more than there are characters.
  have henough := h.length_le
  have hcount : (tokens.flatMap Token.chars).length + 1 =
      tokens.length + ((tokens.flatMap Token.chars).length - tokens.length + 1) := by omega
  rw [tokenize, hcount, tokenizeAfter_flatMap h]
  rfl

end Bulletin.Json
