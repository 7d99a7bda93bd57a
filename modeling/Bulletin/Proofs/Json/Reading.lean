import Bulletin.Proofs.Json.Lexing

/-!
# Reading — values as tokens and back

The reader is a machine that keeps the open arrays and objects on a stack. A value is read when its
tokens take the machine from waiting for it to having it, with the stack as it was. This file defines:

* `Value.ofParts` — induction over a value: from the items of an array and the fields of an object;
* `Value.Reads`, `Value.reads` — every value is read, whatever is on the stack;
* `Value.Plain`, `Value.Plain.written` — a value with texts of whole characters has tokens that may
  stand side by side;
* `Value.parse?_compact` — so it is found again in its compact text.
-/

namespace Bulletin.Json

open Token

namespace Value

/-! ## Induction -/

/-- What holds of the values without parts, of an array when it holds of its items, and of an object
when it holds of the values in its fields, holds of every value. -/
theorem ofParts {P : Value → Prop} (null : P .null) (boolean : ∀ b, P (.boolean b))
    (natural : ∀ n, P (.natural n)) (number : ∀ text, P (.number text))
    (string : ∀ glyphs, P (.string glyphs))
    (array : ∀ items, (∀ item ∈ items, P item) → P (.array items))
    (object : ∀ fields, (∀ field ∈ fields, P field.2) → P (.object fields)) (v : Value) : P v := by
  refine @Value.rec P (fun items => ∀ item ∈ items, P item) (fun fields => ∀ field ∈ fields, P field.2)
    (fun field => P field.2) null boolean natural number string array object ?_ ?_ ?_ ?_ ?_ v
  -- The lists of items and of fields are inductions of their own, and so is the pair that is a field.
  · exact List.forall_mem_nil _
  · intro item rest hitem hrest
    exact List.forall_mem_cons.mpr ⟨hitem, hrest⟩
  · exact List.forall_mem_nil _
  · intro field rest hfield hrest
    exact List.forall_mem_cons.mpr ⟨hfield, hrest⟩
  · intro key value hvalue
    exact hvalue

/-! ## The machine -/

variable {v : Value} {items : List Value} {fields : List (List Glyph × Value)} {stack : List Frame}

/-- The tokens of the value take the reader from waiting for a value to having this one. -/
def Reads (v : Value) : Prop :=
  ∀ stack, v.tokens.foldlM Reader.step (.value stack) = some (.after stack v)

/-- Behind a value that is read, reading goes on with the value complete. -/
theorem Reads.append (h : v.Reads) (rest : List Token) :
    (v.tokens ++ rest).foldlM Reader.step (.value stack) =
      rest.foldlM Reader.step (.after stack v) := by
  rw [List.foldlM_append, h stack]
  rfl

/-- From the first item on, with others in front of it, to the end of the array. -/
theorem foldlM_itemTokens (hitems : ∀ item ∈ items, item.Reads) (hne : items ≠ [])
    (before : List Value) :
    (itemTokens items).foldlM Reader.step (.value (.array before :: stack)) =
      some (.after stack (.array (before.reverse ++ items))) := by
  induction items generalizing before with
  | nil => exact absurd rfl hne
  | cons item rest ih =>
      obtain ⟨hitem, hrest⟩ := List.forall_mem_cons.mp hitems
      cases rest with
      | nil =>
          rw [itemTokens, hitem.append]
          simp [Reader.step, Reader.endValue]
      | cons next rest =>
          calc
            (itemTokens (item :: next :: rest)).foldlM Reader.step (.value (.array before :: stack))
                = (itemTokens (next :: rest)).foldlM Reader.step
                    (.value (.array (item :: before) :: stack)) := by
                  rw [itemTokens, hitem.append]
                  rfl
            _ = some (.after stack (.array ((item :: before).reverse ++ next :: rest))) :=
                  ih hrest (List.cons_ne_nil next rest) (item :: before)
            _ = some (.after stack (.array (before.reverse ++ item :: next :: rest))) := by
                  simp

/-- From the first key on, with other fields in front of it, to the end of the object. -/
theorem foldlM_fieldTokens (hfields : ∀ field ∈ fields, field.2.Reads) (hne : fields ≠ [])
    (before : List (List Glyph × Value)) :
    (fieldTokens fields).foldlM Reader.step (.key stack before) =
      some (.after stack (.object (before.reverse ++ fields))) := by
  induction fields generalizing before with
  | nil => exact absurd rfl hne
  | cons field rest ih =>
      obtain ⟨hfield, hrest⟩ := List.forall_mem_cons.mp hfields
      obtain ⟨key, value⟩ := field
      -- The key and the colon behind it lead to the value of the field.
      have hkey (later : List Token) :
          (.string key :: .colon :: value.tokens ++ later).foldlM Reader.step (.key stack before) =
            later.foldlM Reader.step (.after (.object before key :: stack) value) :=
        hfield.append later
      cases rest with
      | nil =>
          rw [fieldTokens, hkey]
          simp [Reader.step, Reader.endValue]
      | cons next rest =>
          calc
            (fieldTokens ((key, value) :: next :: rest)).foldlM Reader.step (.key stack before)
                = (fieldTokens (next :: rest)).foldlM Reader.step
                    (.key stack ((key, value) :: before)) := by
                  rw [fieldTokens, hkey]
                  rfl
            _ = some (.after stack (.object (((key, value) :: before).reverse ++ next :: rest))) :=
                  ih hrest (List.cons_ne_nil next rest) ((key, value) :: before)
            _ = some (.after stack (.object (before.reverse ++ (key, value) :: next :: rest))) := by
                  simp

/-- The first item of an array is awaited like any other value, or the end, and no value starts with
an end. -/
theorem foldlM_item (v : Value) (rest : List Token) :
    (v.tokens ++ rest).foldlM Reader.step (.item stack) =
      (v.tokens ++ rest).foldlM Reader.step (.value (.array [] :: stack)) := by
  cases v <;> rfl

theorem foldlM_itemTokens_first (item : Value) (rest : List Value) :
    (itemTokens (item :: rest)).foldlM Reader.step (.item stack) =
      (itemTokens (item :: rest)).foldlM Reader.step (.value (.array [] :: stack)) := by
  cases rest <;> exact foldlM_item item _

theorem foldlM_fieldTokens_first (field : List Glyph × Value) (rest : List (List Glyph × Value)) :
    (fieldTokens (field :: rest)).foldlM Reader.step (.field stack) =
      (fieldTokens (field :: rest)).foldlM Reader.step (.key stack []) := by
  cases rest <;> rfl

/-- Every value is read, whatever is on the stack. -/
theorem reads (v : Value) : v.Reads := by
  induction v using ofParts with
  | null | boolean _ | natural _ | number _ | string _ => exact fun stack => rfl
  | array items ih =>
      intro stack
      cases items with
      | nil => rfl
      | cons item rest =>
          calc
            (array (item :: rest)).tokens.foldlM Reader.step (.value stack)
                = (itemTokens (item :: rest)).foldlM Reader.step (.item stack) := rfl
            _ = some (.after stack (.array ([].reverse ++ item :: rest))) := by
                  rw [foldlM_itemTokens_first, foldlM_itemTokens ih (List.cons_ne_nil item rest)]
  | object fields ih =>
      intro stack
      cases fields with
      | nil => rfl
      | cons field rest =>
          calc
            (object (field :: rest)).tokens.foldlM Reader.step (.value stack)
                = (fieldTokens (field :: rest)).foldlM Reader.step (.field stack) := rfl
            _ = some (.after stack (.object ([].reverse ++ field :: rest))) := by
                  rw [foldlM_fieldTokens_first, foldlM_fieldTokens ih (List.cons_ne_nil field rest)]

theorem ofTokens?_tokens (v : Value) : ofTokens? v.tokens = some v := by
  rw [ofTokens?, v.reads []]

/-! ## Plain values -/

/-- A value whose texts are of whole characters and whose numbers are of digits only. -/
inductive Plain : Value → Prop where
  | null : Plain .null
  | boolean (b : Bool) : Plain (.boolean b)
  | natural (n : Nat) : Plain (.natural n)
  | text (chars : List Char) : Plain (.string (glyphsOf chars))
  | array {items : List Value} (hitems : ∀ item ∈ items, Plain item) : Plain (.array items)
  | object {fields : List (List Glyph × Value)}
      (hkeys : ∀ field ∈ fields, ∃ chars, field.1 = glyphsOf chars)
      (hvalues : ∀ field ∈ fields, Plain field.2) : Plain (.object fields)

theorem written_itemTokens (h : ∀ item ∈ items, Written item.tokens) :
    Written (itemTokens items) := by
  induction items with
  | nil => exact .singleton trivial
  | cons item rest ih =>
      obtain ⟨hitem, hrest⟩ := List.forall_mem_cons.mp h
      cases rest with
      | nil => exact .append_mark rfl hitem .nil
      | cons next rest => exact .append_mark rfl hitem (ih hrest)

theorem written_fieldTokens (hkeys : ∀ field ∈ fields, ∃ chars, field.1 = glyphsOf chars)
    (hvalues : ∀ field ∈ fields, Written field.2.tokens) : Written (fieldTokens fields) := by
  induction fields with
  | nil => exact .singleton trivial
  | cons field rest ih =>
      obtain ⟨hkey, hrestKeys⟩ := List.forall_mem_cons.mp hkeys
      obtain ⟨hvalue, hrestValues⟩ := List.forall_mem_cons.mp hvalues
      obtain ⟨key, value⟩ := field
      have hfield : Written ([.string key] ++ .colon :: value.tokens) :=
        .append_mark rfl (.singleton hkey) hvalue
      cases rest with
      | nil => exact .append_mark rfl hfield .nil
      | cons next rest => exact .append_mark rfl hfield (ih hrestKeys hrestValues)

theorem Plain.written (h : v.Plain) : Written v.tokens := by
  induction h with
  | null | boolean _ | natural _ => exact .singleton trivial
  | text chars => exact .singleton ⟨chars, rfl⟩
  | array _ ih => exact .append_mark rfl .nil (written_itemTokens ih)
  | object hkeys _ ih => exact .append_mark rfl .nil (written_fieldTokens hkeys ih)

/-! ## Texts -/

/-- A plain value is found again in its compact text. -/
theorem parse?_compact (h : v.Plain) : parse? v.compact.toList = some v := by
  have htokens : tokenize v.compactChars = some v.tokens := tokenize_chars h.written
  rw [compact, String.toList_ofList, parse?, htokens]
  exact ofTokens?_tokens v

end Value

end Bulletin.Json
