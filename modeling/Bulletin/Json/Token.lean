import Bulletin.Bytes

/-!
# JSON tokens

The words of a JSON text: brackets, commas and colons, literals, numbers and strings. `tokenize` is
strict: blanks are space, tab, line feed and carriage return; numbers have no leading zero and no plus
sign; nothing else stands between tokens.

A string is read as a list of glyphs, which tells apart what some readers accept and others refuse: a
control character that stands unescaped, and half of a surrogate pair.
-/

namespace Bulletin.Json

/-- One element of a string. -/
inductive Glyph where
  /-- A character, escaped or not. -/
  | scalar (c : Char)
  /-- A control character that stands unescaped. -/
  | control (c : Char)
  /-- Half of a surrogate pair without the other half. -/
  | surrogate (code : Nat)
  deriving DecidableEq, Repr

inductive Token where
  | openArray
  | closeArray
  | openObject
  | closeObject
  | comma
  | colon
  | null
  | boolean (value : Bool)
  /-- A number written with digits only. -/
  | natural (n : Nat)
  /-- A number with a minus sign, a fraction or an exponent, as it is written. -/
  | number (text : List Char)
  | string (glyphs : List Glyph)
  deriving DecidableEq, Repr

/-- Whether a code is the first half of a surrogate pair. -/
def isLeading (code : Nat) : Bool :=
  0xD800 ≤ code && code < 0xDC00

/-- Whether a code is the second half of a surrogate pair. -/
def isTrailing (code : Nat) : Bool :=
  0xDC00 ≤ code && code < 0xE000

def joinPair (leading trailing : Nat) : Char :=
  Char.ofNat (0x10000 + 0x400 * (leading - 0xD800) + (trailing - 0xDC00))

/-- A 16-bit code put after the glyphs found so far (last one first), completing a pair if it can. -/
def pushCode (code : Nat) (found : List Glyph) : List Glyph :=
  match found with
  -- A lone half can only come from an escape, so these two escapes are neighbours.
  | .surrogate leading :: rest =>
    if isLeading leading && isTrailing code then .scalar (joinPair leading code) :: rest
    else if isLeading code || isTrailing code then .surrogate code :: found
    else .scalar (Char.ofNat code) :: found
  | _ =>
    if isLeading code || isTrailing code then .surrogate code :: found
    else .scalar (Char.ofNat code) :: found

def shortEscape? : Char → Option Char
  | '"' => some '"'
  | '\\' => some '\\'
  | '/' => some '/'
  | 'b' => some '\x08'
  | 'f' => some '\x0c'
  | 'n' => some '\n'
  | 'r' => some '\r'
  | 't' => some '\t'
  | _ => none

def hexCode? (a b c d : Char) : Option Nat := do
  let a ← hexValue? a
  let b ← hexValue? b
  let c ← hexValue? c
  let d ← hexValue? d
  return 4096 * a + 256 * b + 16 * c + d

/-- The rest of a string after the glyphs found so far (last one first), and the text after it. -/
def readString (found : List Glyph) : List Char → Option (List Glyph × List Char)
  | [] => none
  | '"' :: rest => some (found.reverse, rest)
  | '\\' :: 'u' :: a :: b :: c :: d :: rest =>
    match hexCode? a b c d with
    | some code => readString (pushCode code found) rest
    | none => none
  | '\\' :: letter :: rest =>
    match shortEscape? letter with
    | some c => readString (.scalar c :: found) rest
    | none => none
  | c :: rest =>
    if c = '\\' then none
    else readString ((if c.toNat < 32 then .control c else .scalar c) :: found) rest

/-- A run of digits at the front of a text, which must not be empty. -/
def readDigits (text : List Char) : Option (List Char × List Char) :=
  match text.span Char.isDigit with
  | ([], _) => none
  | (digits, rest) => some (digits, rest)

/-- The digits before the point: a zero stands alone. -/
def readWhole (text : List Char) : Option (List Char × List Char) :=
  match readDigits text with
  | some ('0' :: _ :: _, _) => none
  | found => found

def readFraction : List Char → Option (List Char × List Char)
  | '.' :: rest => (readDigits rest).map fun (digits, rest) => ('.' :: digits, rest)
  | text => some ([], text)

def readSign : List Char → List Char × List Char
  | '+' :: rest => (['+'], rest)
  | '-' :: rest => (['-'], rest)
  | text => ([], text)

def readExponent : List Char → Option (List Char × List Char)
  | c :: rest =>
    if c = 'e' ∨ c = 'E' then
      let (sign, rest) := readSign rest
      (readDigits rest).map fun (digits, rest) => (c :: sign ++ digits, rest)
    else some ([], c :: rest)
  | [] => some ([], [])

/-- The number without its minus sign at the front of a text: its digits before the point, the fraction
and exponent, and what follows. -/
def readMagnitude (text : List Char) : Option (List Char × List Char × List Char) := do
  let (whole, rest) ← readWhole text
  let (fraction, rest) ← readFraction rest
  let (exponent, rest) ← readExponent rest
  return (whole, fraction ++ exponent, rest)

def readNumber : List Char → Option (Token × List Char)
  | '-' :: text => do
    let (whole, more, rest) ← readMagnitude text
    return (.number ('-' :: whole ++ more), rest)
  | text => do
    let (whole, more, rest) ← readMagnitude text
    if more.isEmpty then return (.natural (Nat.ofDigitChars 10 whole 0), rest)
    else return (.number (whole ++ more), rest)

/-- Whether a character may stand between tokens. -/
def isBlank (c : Char) : Bool :=
  c == ' ' || c == '\t' || c == '\n' || c == '\r'

/-- The token at the front of a text that starts with no blank. -/
def readToken : List Char → Option (Token × List Char)
  | [] => none
  | '[' :: rest => some (.openArray, rest)
  | ']' :: rest => some (.closeArray, rest)
  | '\x7b' :: rest => some (.openObject, rest)
  | '\x7d' :: rest => some (.closeObject, rest)
  | ',' :: rest => some (.comma, rest)
  | ':' :: rest => some (.colon, rest)
  | '"' :: rest => (readString [] rest).map fun (glyphs, rest) => (.string glyphs, rest)
  | 'n' :: 'u' :: 'l' :: 'l' :: rest => some (.null, rest)
  | 't' :: 'r' :: 'u' :: 'e' :: rest => some (.boolean true, rest)
  | 'f' :: 'a' :: 'l' :: 's' :: 'e' :: rest => some (.boolean false, rest)
  | text => readNumber text

/-- The tokens of a text, after those already found (last one first). The count bounds how many more
are looked for; a text has no more tokens than characters. -/
def tokenizeAfter : Nat → List Token → List Char → Option (List Token)
  | 0, _, _ => none
  | count + 1, found, text =>
    match text.dropWhile isBlank with
    | [] => some found.reverse
    | c :: rest =>
      match readToken (c :: rest) with
      | some (token, rest) => tokenizeAfter count (token :: found) rest
      | none => none

def tokenize (text : List Char) : Option (List Token) :=
  tokenizeAfter (text.length + 1) [] text

/-! ## Writing -/

def escapeChar (c : Char) : List Char :=
  if c = '"' then ['\\', '"']
  else if c = '\\' then ['\\', '\\']
  else if c = '\x08' then ['\\', 'b']
  else if c = '\x0c' then ['\\', 'f']
  else if c = '\n' then ['\\', 'n']
  else if c = '\r' then ['\\', 'r']
  else if c = '\t' then ['\\', 't']
  else if c.toNat < 32 then
    ['\\', 'u', '0', '0', Bytes.hexDigit (c.toNat / 16), Bytes.hexDigit c.toNat]
  else [c]

def Glyph.chars : Glyph → List Char
  | scalar c => escapeChar c
  | control c => [c]
  | surrogate code =>
    ['\\', 'u', Bytes.hexDigit (code / 4096), Bytes.hexDigit (code / 256),
      Bytes.hexDigit (code / 16), Bytes.hexDigit code]

def Token.chars : Token → List Char
  | openArray => ['[']
  | closeArray => [']']
  | openObject => ['\x7b']
  | closeObject => ['\x7d']
  | comma => [',']
  | colon => [':']
  | null => ['n', 'u', 'l', 'l']
  | boolean true => ['t', 'r', 'u', 'e']
  | boolean false => ['f', 'a', 'l', 's', 'e']
  | natural n => Nat.toDigits 10 n
  | number text => text
  | string glyphs => ['"'] ++ glyphs.flatMap Glyph.chars ++ ['"']

end Bulletin.Json
