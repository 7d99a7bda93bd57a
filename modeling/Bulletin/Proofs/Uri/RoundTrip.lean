import Bulletin.Proofs.Uri.Escaping
import Bulletin.Proofs.Deadlines
import Mathlib.Data.List.Forall2
import Mathlib.Data.List.TakeDrop
import Mathlib.Data.List.TakeWhile

/-!
# RoundTrip — names as text

A component is written in one of three forms, and reading finds out which one it was from the text
alone. This file shows that it always finds the right one:

* `Component.uriChars_cases` — the three forms: a timestamp, an escaped value, a type and an escaped
  value;
* `Component.ofUriChars_stamp`, `Component.ofUriChars_plain`, `Component.ofUriChars_typed` — how a
  text of each form is read;
* `Component.ofUriChars_uriChars` — so a component is read back, unless its type is 0;
* `Name.uriPieces_uriChars` — the pieces of a name are its components;
* `Name.uri_round_trip` — names, and texts that are read as names.
-/

namespace Bulletin

/-! ## Numbers in text -/

namespace Uri

theorem all_isDigit_toDigits (n : Nat) : (Nat.toDigits 10 n).all Char.isDigit = true :=
  List.all_eq_true.mpr fun _ hmem => Nat.isDigit_of_mem_toDigits (by decide) (by decide) hmem

theorem not_mem_toDigits {c : Char} (h : c.isDigit = false) (n : Nat) : c ∉ Nat.toDigits 10 n := by
  intro hmem
  have hdigit := List.all_eq_true.mp (all_isDigit_toDigits n) c hmem
  rw [h] at hdigit
  cases hdigit

theorem numberBelow?_toDigits {n bound : Nat} (h : n < bound) :
    numberBelow? bound (Nat.toDigits 10 n) = some n := by
  have hvalue : Nat.ofDigitChars 10 (Nat.toDigits 10 n) 0 = n := Nat.ofDigitChars_ten_toDigits
  simp [numberBelow?, Nat.toDigits_ne_nil, all_isDigit_toDigits, hvalue, h]

theorem dropPlus_toDigits (n : Nat) : dropPlus (Nat.toDigits 10 n) = Nat.toDigits 10 n := by
  have hplus : '+' ∉ Nat.toDigits 10 n := not_mem_toDigits (by decide) n
  unfold dropPlus
  split
  · rename_i hsigned
    exact absurd (hsigned ▸ List.mem_cons_self) hplus
  · rfl

/-! ## The type in front of a value -/

theorem splitType_plain {piece : List Char} (h : '=' ∉ piece) : splitType piece = (none, piece) := by
  have hkeep : ∀ c ∈ piece, (c != '=') = true := by
    intro c hmem
    exact bne_iff_ne.mpr fun hsame => h (hsame ▸ hmem)
  have htake : piece.takeWhile (· != '=') = piece := List.takeWhile_eq_self_iff.mpr hkeep
  have hdrop : piece.dropWhile (· != '=') = [] := List.dropWhile_eq_nil_iff.mpr hkeep
  rw [splitType, List.span_eq_takeWhile_dropWhile, htake, hdrop]

theorem splitType_typed {digits : List Char} (body : List Char) (hne : digits ≠ [])
    (hdigits : digits.all Char.isDigit = true) :
    splitType (digits ++ '=' :: body) = (some digits, body) := by
  have hkeep : ∀ c ∈ digits, (c != '=') = true := by
    intro c hmem
    refine bne_iff_ne.mpr fun hsame => ?_
    have hdigit := List.all_eq_true.mp hdigits c hmem
    rw [hsame] at hdigit
    cases hdigit
  have htake : (digits ++ '=' :: body).takeWhile (· != '=') = digits := by
    rw [List.takeWhile_append_of_pos hkeep]
    simp
  have hdrop : (digits ++ '=' :: body).dropWhile (· != '=') = '=' :: body := by
    rw [List.dropWhile_append_of_pos hkeep]
    simp
  rw [splitType, List.span_eq_takeWhile_dropWhile, htake, hdrop]
  exact if_pos ⟨hne, hdigits⟩

end Uri

/-! ## Components -/

namespace Component

open Uri

theorem ofTimestamp_of_shortest {c : Component} {t : Timestamp} (h : c.timestamp? = some t)
    (hshort : Wire.writeInteger t.toNat = c.value) : c = .ofTimestamp t := by
  unfold timestamp? at h
  split at h
  · rename_i htype
    cases c
    simp only at htype hshort
    rw [ofTimestamp, htype, hshort]
  · cases h

theorem type_ofTimestamp_ne_zero (t : Timestamp) : (ofTimestamp t).type ≠ 0 :=
  (by decide : timestampType ≠ 0)

/-- The three forms of the text of a component. -/
theorem uriChars_cases (c : Component) :
    (∃ t, c = .ofTimestamp t ∧ c.uriChars = 't' :: '=' :: Nat.toDigits 10 t.toNat) ∨
      (c.type = genericType ∧ c.uriChars = escape c.value) ∨
      c.uriChars = Nat.toDigits 10 c.type.toNat ++ '=' :: escape c.value := by
  unfold uriChars
  split
  · rename_i t htime
    split
    · rename_i hshort
      exact Or.inl ⟨t, ofTimestamp_of_shortest htime hshort, rfl⟩
    · exact Or.inr (Or.inr rfl)
  · split
    · rename_i hgeneric
      exact Or.inr (Or.inl ⟨hgeneric, rfl⟩)
    · exact Or.inr (Or.inr rfl)

theorem ofUriChars_stamp {n : Nat} (h : n < 2 ^ 64) :
    ofUriChars ('t' :: '=' :: Nat.toDigits 10 n) = .ok (.ofTimestamp (.ofNat n)) := by
  have hnumber : numberBelow? UInt64.size (Nat.toDigits 10 n) = some n := numberBelow?_toDigits h
  simp only [ofUriChars, dropPlus_toDigits, hnumber]

theorem ofUriChars_plain {piece : List Char} (h : '=' ∉ piece) :
    ofUriChars piece = ofEscaped piece genericType piece := by
  unfold ofUriChars
  split
  · simp at h
  · rw [splitType_plain h]

theorem ofUriChars_typed {digits : List Char} (body : List Char) (hne : digits ≠ [])
    (hdigits : digits.all Char.isDigit = true) {type : Nat}
    (hnumber : numberBelow? UInt16.size digits = some type) :
    ofUriChars (digits ++ '=' :: body) =
      if type = 0 then .error (.badType (String.ofList (digits ++ '=' :: body)))
      else ofEscaped (digits ++ '=' :: body) (UInt16.ofNat type) body := by
  unfold ofUriChars
  split
  · -- A letter is no digit.
    rename_i rest hstamp
    cases digits with
    | nil => exact absurd rfl hne
    | cons first more =>
        have hfirst : first = 't' := (List.cons.inj hstamp).1
        rw [hfirst] at hdigits
        cases hdigits
  · simp only [splitType_typed body hne hdigits, hnumber]
    cases type with
    | zero => rfl
    | succ n => rfl

/-- A component is read back from its text; a type that is 0 is refused. -/
theorem ofUriChars_uriChars (c : Component) :
    ofUriChars c.uriChars =
      if c.type = 0 then .error (.badType (String.ofList c.uriChars)) else .ok c := by
  rcases c.uriChars_cases with ⟨t, hstamp, htext⟩ | ⟨hgeneric, htext⟩ | htext
  · have htype : c.type ≠ 0 := hstamp ▸ type_ofTimestamp_ne_zero t
    rw [htext, ofUriChars_stamp t.toNat_lt, if_neg htype, Timestamp.ofNat_toNat, hstamp]
  · have htype : c.type ≠ 0 := by
      rw [hgeneric]
      decide
    have hfree : '=' ∉ escape c.value := not_mem_escape (by decide) (by decide) c.value
    rw [htext, ofUriChars_plain hfree, ofEscaped_escape, if_neg htype, ← hgeneric]
  · have hnumber : numberBelow? UInt16.size (Nat.toDigits 10 c.type.toNat) = some c.type.toNat :=
      numberBelow?_toDigits c.type.toNat_lt
    rw [htext, ofUriChars_typed _ Nat.toDigits_ne_nil (all_isDigit_toDigits _) hnumber,
      ofEscaped_escape, UInt16.ofNat_toNat]
    have hnone : c.type.toNat = 0 ↔ c.type = 0 := UInt16.toNat_inj (b := 0)
    simp only [hnone]

theorem uriChars_ne_nil (c : Component) : c.uriChars ≠ [] := by
  rcases c.uriChars_cases with ⟨t, -, htext⟩ | ⟨-, htext⟩ | htext
  · simp [htext]
  · rw [htext]
    exact escape_ne_nil c.value
  · simp [htext]

theorem slash_not_mem_uriChars (c : Component) : '/' ∉ c.uriChars := by
  have hvalue : '/' ∉ escape c.value := not_mem_escape (by decide) (by decide) c.value
  have hdigits (n : Nat) : '/' ∉ Nat.toDigits 10 n := not_mem_toDigits (by decide) n
  rcases c.uriChars_cases with ⟨t, -, htext⟩ | ⟨-, htext⟩ | htext
  · simp [htext, hdigits]
  · rw [htext]
    exact hvalue
  · simp [htext, hdigits, hvalue]

theorem type_of_ofEscaped {piece body : List Char} {type : UInt16} {c : Component}
    (h : ofEscaped piece type body = .ok c) : c.type = type := by
  unfold ofEscaped at h
  split at h
  · cases h
  · split at h
    · split at h
      · cases h
      · cases h
        rfl
    · cases h
      rfl

/-- No text is read as a component of type 0. -/
theorem type_ne_zero_of_ofUriChars {piece : List Char} {c : Component}
    (h : ofUriChars piece = .ok c) : c.type ≠ 0 := by
  unfold ofUriChars at h
  split at h
  · split at h
    · cases h
      exact type_ofTimestamp_ne_zero _
    · cases h
  · split at h
    · rw [type_of_ofEscaped h]
      decide
    · rename_i digits body _
      cases hnumber : numberBelow? UInt16.size digits with
      | none => simp [hnumber] at h
      | some type =>
          have hbound : type < UInt16.size := by
            unfold numberBelow? at hnumber
            grind
          cases type with
          | zero => simp [hnumber] at h
          | succ n =>
              simp only [hnumber] at h
              rw [type_of_ofEscaped h]
              intro hzero
              have hvalue := congrArg UInt16.toNat hzero
              rw [UInt16.toNat_ofNat_of_lt' hbound] at hvalue
              cases hvalue

end Component

/-! ## Names -/

namespace Name

theorem splitOn_flatMap_slash {first : List Char} {pieces : List (List Char)} (hfirst : '/' ∉ first)
    (hpieces : ∀ piece ∈ pieces, '/' ∉ piece) :
    (first ++ pieces.flatMap fun piece => '/' :: piece).splitOn '/' = first :: pieces := by
  induction pieces generalizing first with
  | nil =>
      rw [List.flatMap_nil, List.append_nil]
      exact List.splitOn_eq_singleton hfirst
  | cons piece rest ih =>
      rw [List.flatMap_cons, List.cons_append, List.splitOn_append_cons_self_of_not_mem hfirst,
        ih (hpieces piece List.mem_cons_self) fun later hmem =>
          hpieces later (List.mem_cons_of_mem piece hmem)]

/-- The pieces of the text of a name are the texts of its components. -/
theorem uriPieces_uriChars (name : Name) :
    uriPieces name.uriChars = name.components.map Component.uriChars := by
  rcases name with ⟨components⟩
  cases components with
  | nil => decide
  | cons c rest =>
      have htext : uriChars ⟨c :: rest⟩ =
          [] ++ ((c :: rest).map Component.uriChars).flatMap fun piece => '/' :: piece := by
        rw [List.flatMap_map]
        rfl
      have hscheme : dropScheme (uriChars ⟨c :: rest⟩) = uriChars ⟨c :: rest⟩ := rfl
      have hslash : ∀ piece ∈ (c :: rest).map Component.uriChars, '/' ∉ piece := by
        intro piece hmem
        rcases List.mem_map.mp hmem with ⟨c', -, rfl⟩
        exact c'.slash_not_mem_uriChars
      have hkeep : ∀ piece ∈ (c :: rest).map Component.uriChars,
          decide (piece ≠ []) = true := by
        intro piece hmem
        rcases List.mem_map.mp hmem with ⟨c', -, rfl⟩
        simpa using c'.uriChars_ne_nil
      rw [uriPieces, hscheme, htext, splitOn_flatMap_slash List.not_mem_nil hslash,
        List.filter_cons_of_neg (by simp), List.filter_eq_self.mpr hkeep]

/-- Pieces are read one by one, each as the component in its place. -/
theorem mapM_eq_ok_iff {pieces : List (List Char)} {components : List Component} :
    pieces.mapM Component.ofUriChars = .ok components ↔
      List.Forall₂ (fun piece c => Component.ofUriChars piece = .ok c) pieces components := by
  induction pieces generalizing components with
  | nil =>
      rw [List.forall₂_nil_left_iff]
      exact ⟨fun h => (Except.ok.inj h).symm, fun h => h ▸ rfl⟩
  | cons piece rest ih =>
      rw [List.mapM_cons]
      constructor
      · intro h
        cases hfirst : Component.ofUriChars piece with
        | error fault =>
            rw [hfirst] at h
            cases h
        | ok c =>
            cases hrest : rest.mapM Component.ofUriChars with
            | error fault =>
                rw [hfirst, hrest] at h
                cases h
            | ok later =>
                rw [hfirst, hrest] at h
                cases h
                exact .cons hfirst (ih.mp hrest)
      · rintro (_ | ⟨hfirst, hrest⟩)
        rw [hfirst, ih.mpr hrest]
        rfl

theorem mapM_uriChars {components : List Component} (h : ∀ c ∈ components, c.type ≠ 0) :
    (components.map Component.uriChars).mapM Component.ofUriChars = .ok components := by
  rw [mapM_eq_ok_iff, List.forall₂_map_left_iff, List.forall₂_same]
  intro c hmem
  rw [Component.ofUriChars_uriChars, if_neg (h c hmem)]

theorem mapM_uriChars_error {components : List Component} (h : ∃ c ∈ components, c.type = 0) :
    ∃ fault, (components.map Component.uriChars).mapM Component.ofUriChars = .error fault := by
  induction components with
  | nil =>
      rcases h with ⟨c, hmem, -⟩
      cases hmem
  | cons c rest ih =>
      rw [List.map_cons, List.mapM_cons, Component.ofUriChars_uriChars]
      by_cases hzero : c.type = 0
      · rw [if_pos hzero]
        exact ⟨_, rfl⟩
      · have hlater : ∃ c' ∈ rest, c'.type = 0 := by
          rcases h with ⟨c', hmem, htype⟩
          rcases List.mem_cons.mp hmem with rfl | hrest
          · exact absurd htype hzero
          · exact ⟨c', hrest, htype⟩
        rcases ih hlater with ⟨fault, hrest⟩
        rw [if_neg hzero, hrest]
        exact ⟨fault, rfl⟩

theorem mem_of_mapM {pieces : List (List Char)} {components : List Component}
    (h : pieces.mapM Component.ofUriChars = .ok components) {c : Component} (hmem : c ∈ components) :
    ∃ piece ∈ pieces, Component.ofUriChars piece = .ok c := by
  induction mapM_eq_ok_iff.mp h with
  | nil => cases hmem
  | @cons piece _ rest _ hfirst hrest ih =>
      rcases List.mem_cons.mp hmem with rfl | hlater
      · exact ⟨piece, List.mem_cons_self, hfirst⟩
      · obtain ⟨found, hfound, hread⟩ := ih (mapM_eq_ok_iff.mpr hrest) hlater
        exact ⟨found, List.mem_cons_of_mem piece hfound, hread⟩

theorem ofUri_eq_ok_iff {text : String} {name : Name} :
    ofUri text = .ok name ↔
      (uriPieces text.toList).mapM Component.ofUriChars = .ok name.components := by
  rcases name with ⟨components⟩
  rw [ofUri, ofUriChars]
  cases (uriPieces text.toList).mapM Component.ofUriChars with
  | error fault => simp [Except.mapError]
  | ok found => simp [Except.mapError]

theorem ofUri_uri {name : Name} (h : ∀ c ∈ name.components, c.type ≠ 0) :
    ofUri name.uri = .ok name := by
  rw [ofUri_eq_ok_iff, uri, String.toList_ofList, uriPieces_uriChars]
  exact mapM_uriChars h

theorem ofUri_uri_error {name : Name} (h : ∃ c ∈ name.components, c.type = 0) :
    ∃ fault, ofUri name.uri = .error (.invalidUri fault) := by
  rcases mapM_uriChars_error h with ⟨fault, herror⟩
  refine ⟨fault, ?_⟩
  rw [ofUri, ofUriChars, uri, String.toList_ofList, uriPieces_uriChars, herror]
  rfl

theorem types_of_ofUri {text : String} {name : Name} (h : ofUri text = .ok name) :
    ∀ c ∈ name.components, c.type ≠ 0 := by
  intro c hmem
  rcases mem_of_mapM (ofUri_eq_ok_iff.mp h) hmem with ⟨piece, -, hread⟩
  exact Component.type_ne_zero_of_ofUriChars hread

/-- Every name is read back from its text, unless a type in it is 0, which no text can name. What any
text is read as has types from 1 on; so writing it gives a text that is read as the same name, and
that reading and writing leave as it is. -/
theorem uri_round_trip :
    (∀ name : Name,
      ((∀ c ∈ name.components, c.type ≠ 0) → ofUri name.uri = .ok name) ∧
        ((∃ c ∈ name.components, c.type = 0) →
          ∃ fault, ofUri name.uri = .error (.invalidUri fault))) ∧
      ∀ (text : String) (name : Name), ofUri text = .ok name →
        (∀ c ∈ name.components, 1 ≤ c.type.toNat ∧ c.type.toNat ≤ 65535) ∧
          ofUri name.uri = .ok name ∧ (ofUri name.uri).map uri = .ok name.uri := by
  refine ⟨fun name => ⟨ofUri_uri, ofUri_uri_error⟩, ?_⟩
  intro text name hread
  have htypes := types_of_ofUri hread
  have hback := ofUri_uri htypes
  refine ⟨?_, hback, by rw [hback]; rfl⟩
  intro c hmem
  have hrange : c.type.toNat < 65536 := c.type.toNat_lt
  have hpositive : c.type.toNat ≠ 0 := fun hnone => htypes c hmem (UInt16.toNat_inj.mp hnone)
  omega

/-- Values that look like periods, a timestamp, a separator; an integer longer than it need be; a type
that is 0; and a text that is written differently once it was read. -/
theorem uri_round_trip_lookalikes :
    let name : Name :=
      ⟨[.generic [], .generic [46, 46], .generic [116, 61, 53], ⟨36, [0, 5]⟩, .ofTimestamp ⟨5⟩,
        ⟨65535, [47, 37, 255]⟩]⟩
    let text := "ndn:x//007=%2e.%2e./t=+05"
    let read : Name := ⟨[.generic [120], ⟨7, [46]⟩, .ofTimestamp ⟨5⟩]⟩
    name.uri = "/.../...../t%3D5/36=%00%05/t=5/65535=%2F%25%FF" ∧ ofUri name.uri = .ok name ∧
      (∃ fault, ofUri (uri ⟨[⟨0, [46]⟩]⟩) = .error (.invalidUri fault)) ∧
      ofUri text = .ok read ∧ read.uri = "/x/7=..../t=5" ∧ ofUri read.uri = .ok read := by
  intro name text read
  rcases uri_round_trip with ⟨hnames, htexts⟩
  have hread : ofUri text = .ok read := by decide
  exact ⟨by decide, (hnames name).1 (by decide), (hnames ⟨[⟨0, [46]⟩]⟩).2 ⟨⟨0, [46]⟩, by decide, rfl⟩,
    hread, by decide, (htexts text read hread).2.1⟩

end Name

end Bulletin
