import Bulletin.Json.Token

/-!
# JSON values

Documents as trees. Reading runs a small machine over the tokens: it keeps the arrays and objects that
are still open on a stack, so that nesting of any depth is read in one pass. Writing is compact, with
no blanks.
-/

namespace Bulletin.Json

/-- A document, or a part of one. -/
inductive Value where
  | null
  | boolean (value : Bool)
  /-- A number written with digits only. -/
  | natural (n : Nat)
  /-- Any other number, as it is written. -/
  | number (text : List Char)
  | string (glyphs : List Glyph)
  | array (items : List Value)
  | object (fields : List (List Glyph × Value))

/-- An array or object that is still open; what it holds so far stands last one first. -/
inductive Frame where
  | array (items : List Value)
  | object (fields : List (List Glyph × Value)) (key : List Glyph)

/-- What the reader waits for. -/
inductive Reader where
  /-- A value. -/
  | value (stack : List Frame)
  /-- The first item of an array, or its end. -/
  | item (stack : List Frame)
  /-- The first key of an object, or its end. -/
  | field (stack : List Frame)
  /-- The next key of an object. -/
  | key (stack : List Frame) (fields : List (List Glyph × Value))
  /-- The colon after a key. -/
  | colon (stack : List Frame) (fields : List (List Glyph × Value)) (key : List Glyph)
  /-- What follows a value that is complete. -/
  | after (stack : List Frame) (value : Value)

namespace Reader

/-- What the reader waits for after a token that starts a value, or is one. -/
def startValue (stack : List Frame) : Token → Option Reader
  | .openArray => some (.item stack)
  | .openObject => some (.field stack)
  | .null => some (.after stack .null)
  | .boolean b => some (.after stack (.boolean b))
  | .natural n => some (.after stack (.natural n))
  | .number text => some (.after stack (.number text))
  | .string glyphs => some (.after stack (.string glyphs))
  | _ => none

/-- What the reader waits for after a token that follows a complete value. -/
def endValue (value : Value) : List Frame → Token → Option Reader
  | .array items :: stack, .comma => some (.value (.array (value :: items) :: stack))
  | .array items :: stack, .closeArray => some (.after stack (.array (value :: items).reverse))
  | .object fields label :: stack, .comma => some (.key stack ((label, value) :: fields))
  | .object fields label :: stack, .closeObject =>
    some (.after stack (.object ((label, value) :: fields).reverse))
  | _, _ => none

/-- What the reader waits for after one more token; nothing when the token cannot stand there. -/
def step : Reader → Token → Option Reader
  | value stack, token => startValue stack token
  | item stack, .closeArray => some (.after stack (.array []))
  | item stack, token => startValue (.array [] :: stack) token
  | field stack, .closeObject => some (.after stack (.object []))
  | field stack, .string glyphs => some (.colon stack [] glyphs)
  | key stack fields, .string glyphs => some (.colon stack fields glyphs)
  | colon stack fields label, .colon => some (.value (.object fields label :: stack))
  | after stack complete, token => endValue complete stack token
  | _, _ => none

end Reader

namespace Value

/-- The value that a list of tokens is, if it is exactly one. -/
def ofTokens? (tokens : List Token) : Option Value :=
  match tokens.foldlM Reader.step (Reader.value []) with
  | some (.after [] value) => some value
  | _ => none

def parse? (text : List Char) : Option Value :=
  (tokenize text).bind ofTokens?

mutual

def tokens : Value → List Token
  | null => [.null]
  | boolean b => [.boolean b]
  | natural n => [.natural n]
  | number text => [.number text]
  | string glyphs => [.string glyphs]
  | array items => .openArray :: itemTokens items
  | object fields => .openObject :: fieldTokens fields

/-- The tokens of the items of an array, with its end. -/
def itemTokens : List Value → List Token
  | [] => [.closeArray]
  | [last] => last.tokens ++ [.closeArray]
  | item :: next :: rest => item.tokens ++ .comma :: itemTokens (next :: rest)

/-- The tokens of the fields of an object, with its end. -/
def fieldTokens : List (List Glyph × Value) → List Token
  | [] => [.closeObject]
  | [(key, value)] => .string key :: .colon :: value.tokens ++ [.closeObject]
  | (key, value) :: next :: rest =>
    .string key :: .colon :: value.tokens ++ .comma :: fieldTokens (next :: rest)

end

def compactChars (v : Value) : List Char :=
  v.tokens.flatMap Token.chars

def compact (v : Value) : String :=
  String.ofList v.compactChars

/-- Whether no control character stands unescaped. -/
def cleanGlyphs (glyphs : List Glyph) : Bool :=
  glyphs.all fun
    | .control _ => false
    | _ => true

mutual

/-- Whether no string in the value has a control character that stands unescaped. -/
def isClean : Value → Bool
  | string glyphs => cleanGlyphs glyphs
  | array items => cleanItems items
  | object fields => cleanFields fields
  | _ => true

def cleanItems : List Value → Bool
  | [] => true
  | item :: rest => item.isClean && cleanItems rest

def cleanFields : List (List Glyph × Value) → Bool
  | [] => true
  | (key, value) :: rest => cleanGlyphs key && value.isClean && cleanFields rest

end

end Value

end Bulletin.Json
