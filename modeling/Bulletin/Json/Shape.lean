import Bulletin.Json.Value

/-!
# Shapes of JSON values

How the parts of a record are found in a JSON value, and what counts as a number, a text or a byte
string.

- A record is an object, or an array of its parts in order. Keys that the record does not have are
  skipped; a key of the record must not come twice.
- A number is written with digits only.
- A text is a string of whole characters without raw control characters.
- A byte string is an array of bytes, or a string, which stands for its UTF-8 bytes; here control
  characters may stand as they are, and half of a surrogate pair gives the three bytes of its code.
-/

namespace Bulletin.Json

namespace Glyph

/-- The character of a glyph that may stand in a text. -/
def char? : Glyph → Option Char
  | scalar c => some c
  | _ => none

def bytes : Glyph → Bytes
  | scalar c => String.utf8EncodeChar c
  | control c => String.utf8EncodeChar c
  | surrogate code =>
    [UInt8.ofNat (0xE0 + code / 4096), UInt8.ofNat (0x80 + code / 64 % 64),
      UInt8.ofNat (0x80 + code % 64)]

end Glyph

/-- The text of a string, if it is one. -/
def textOf? (glyphs : List Glyph) : Option (List Char) :=
  glyphs.mapM Glyph.char?

def glyphsOf (text : List Char) : List Glyph :=
  text.map .scalar

namespace Value

def text (s : String) : Value :=
  .string (glyphsOf s.toList)

def bytes (bytes : Bytes) : Value :=
  .array (bytes.map fun b => .natural b.toNat)

def record (fields : List (String × Value)) : Value :=
  .object (fields.map fun (key, value) => (glyphsOf key.toList, value))

/-- The number that a value is, if it is below a bound. -/
def natBelow? (bound : Nat) : Value → Option Nat
  | natural n => if n < bound then some n else none
  | _ => none

def text? : Value → Option String
  | string glyphs => (textOf? glyphs).map String.ofList
  | _ => none

def items? : Value → Option (List Value)
  | array items => some items
  | _ => none

def byte? (v : Value) : Option UInt8 :=
  (v.natBelow? 256).map UInt8.ofNat

def bytes? : Value → Option Bytes
  | array items => items.mapM byte?
  | string glyphs => some (glyphs.flatMap Glyph.bytes)
  | _ => none

def valuesUnder (key : String) (fields : List (String × Value)) : List Value :=
  (fields.filter fun field => field.1 == key).map Prod.snd

/-- The value under a key of a record, if there is one; more than one is refused. -/
def valueUnder? (fields : List (String × Value)) (key : String) : Option (Option Value) :=
  match valuesUnder key fields with
  | [] => some none
  | [value] => some (some value)
  | _ => none

/-- The key and value of a field whose key is a text. -/
def field? (field : List Glyph × Value) : Option (String × Value) :=
  (textOf? field.1).map fun key => (String.ofList key, field.2)

/-- The parts of a record with these keys, in the order of the keys; nothing where a part is missing. -/
def parts? (keys : List String) : Value → Option (List (Option Value))
  | object fields => do
    let fields ← fields.mapM field?
    -- Values under other keys are skipped, but they must be well formed.
    if fields.all fun field => keys.contains field.1 || field.2.isClean then
      keys.mapM (valueUnder? fields)
    else none
  | array items =>
    if items.length ≤ keys.length then
      some (items.map some ++ List.replicate (keys.length - items.length) none)
    else none
  | _ => none

end Value

/-- The value of a part, or the default where the part is missing. -/
def partOr {α : Type} (fallback : α) (read : Value → Option α) : Option Value → Option α
  | some value => read value
  | none => some fallback

end Bulletin.Json
