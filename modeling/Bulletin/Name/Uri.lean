import Bulletin.Name.Stamp

/-!
# The text form of names

A name is written as its components, each after a slash: `/chat/room/t=1700000000000000`.

- A timestamp in its shortest form is written `t=` and the number of microseconds.
- A component of the generic type is written as its escaped value, any other type as the type number,
  an equals sign and the escaped value.
- Escaping keeps ASCII letters, digits and `-._~` and writes every other byte as a percent sign and
  two uppercase hexadecimal digits. A value of periods only, the empty one included, gets three more
  periods, so that no component is written as nothing, as one period or as two.

Reading takes this text back and is lenient where no two names can be confused: an optional scheme
`ndn:`, empty pieces, lowercase escapes, escapes that were not needed, unescaped bytes, leading zeros.
-/

namespace Bulletin

namespace Uri

/-- Whether a byte is written as the character it is. -/
def isPlain (b : UInt8) : Bool :=
  let c := Char.ofNat b.toNat
  c.isAlphanum || c == '-' || c == '.' || c == '_' || c == '~'

/-- The digit of `n % 16` in uppercase hexadecimal. -/
def escapeDigit (n : Nat) : Char :=
  (Bytes.hexDigit n).toUpper

/-- A byte as text: the character it is, or an escape. -/
def escapeByte (b : UInt8) : List Char :=
  if isPlain b then [Char.ofNat b.toNat]
  else ['%', escapeDigit (b.toNat / 16), escapeDigit b.toNat]

def period : UInt8 := 46

def allPeriods (value : Bytes) : Bool :=
  value.all (· == period)

/-- A value as text; a value of periods only has three more. -/
def escape (value : Bytes) : List Char :=
  value.flatMap escapeByte ++ if allPeriods value then ['.', '.', '.'] else []

/-- The bytes of an escaped text, after those already found (last one first). -/
def unescapeAfter (found : Bytes) : List Char → Option Bytes
  | [] => some found.reverse
  | '%' :: high :: low :: rest =>
    match hexValue? high, hexValue? low with
    | some h, some l => unescapeAfter (UInt8.ofNat (16 * h + l) :: found) rest
    | _, _ => none
  | c :: rest =>
    if c = '%' then none else unescapeAfter ((String.utf8EncodeChar c).reverse ++ found) rest

/-- The bytes of an escaped text: escapes stand for one byte, other characters for their UTF-8 bytes.
A percent sign that starts no escape is refused. -/
def unescape (text : List Char) : Option Bytes :=
  unescapeAfter [] text

/-- The number that a nonempty run of decimal digits denotes, if it is below a bound. -/
def numberBelow? (bound : Nat) (digits : List Char) : Option Nat :=
  if digits ≠ [] ∧ digits.all Char.isDigit then
    let n := Nat.ofDigitChars 10 digits 0
    if n < bound then some n else none
  else none

def dropPlus : List Char → List Char
  | '+' :: digits => digits
  | digits => digits

/-- The type and the escaped value of a piece: digits up to the first equals sign give the type. -/
def splitType (piece : List Char) : Option (List Char) × List Char :=
  match piece.span (· != '=') with
  | (head, _ :: body) => if head ≠ [] ∧ head.all Char.isDigit then (some head, body) else (none, piece)
  | (_, []) => (none, piece)

end Uri

namespace Component

open Uri

def uriChars (c : Component) : List Char :=
  match c.timestamp? with
  | some t =>
    -- A longer integer than needed would not survive being written as a number.
    if Wire.writeInteger t.toNat = c.value then 't' :: '=' :: Nat.toDigits 10 t.toNat
    else Nat.toDigits 10 c.type.toNat ++ '=' :: escape c.value
  | none =>
    if c.type = genericType then escape c.value
    else Nat.toDigits 10 c.type.toNat ++ '=' :: escape c.value

def uri (c : Component) : String :=
  String.ofList c.uriChars

/-- The component of a type with an escaped value, both taken from `piece`. -/
def ofEscaped (piece : List Char) (type : UInt16) (body : List Char) : Except UriFault Component :=
  match unescape body with
  | none => .error (.badEscape (String.ofList body))
  | some value =>
    if allPeriods value then
      if value.length < 3 then .error (.reserved (String.ofList piece))
      else .ok ⟨type, value.drop 3⟩
    else .ok ⟨type, value⟩

def ofUriChars (piece : List Char) : Except UriFault Component :=
  match piece with
  | 't' :: '=' :: digits =>
    match numberBelow? UInt64.size (dropPlus digits) with
    | some n => .ok (.ofTimestamp (.ofNat n))
    | none => .error (.badTimestamp (String.ofList piece))
  | _ =>
    match splitType piece with
    | (none, body) => ofEscaped piece genericType body
    | (some digits, body) =>
      -- Digits before the equals sign always mean a type, so a bad one is no generic component.
      match numberBelow? UInt16.size digits with
      | some 0 => .error (.badType (String.ofList piece))
      | some type => ofEscaped piece (UInt16.ofNat type) body
      | none => .error (.badType (String.ofList piece))

def ofUri (text : String) : Except FormatError Component :=
  (ofUriChars text.toList).mapError .invalidUri

def inspect (c : Component) : String :=
  "Component(" ++ c.uri ++ ")"

end Component

namespace Name

def uriChars (name : Name) : List Char :=
  match name.components with
  | [] => ['/']
  | components => components.flatMap fun c => '/' :: c.uriChars

def uri (name : Name) : String :=
  String.ofList name.uriChars

def dropScheme : List Char → List Char
  | 'n' :: 'd' :: 'n' :: ':' :: rest => rest
  | text => text

/-- The nonempty pieces between slashes. -/
def uriPieces (text : List Char) : List (List Char) :=
  ((dropScheme text).splitOn '/').filter (· ≠ [])

/-- The name that a text stands for; of several faulty pieces the first one is reported. -/
def ofUriChars (text : List Char) : Except UriFault Name :=
  match (uriPieces text).mapM Component.ofUriChars with
  | .ok components => .ok ⟨components⟩
  | .error fault => .error fault

def ofUri (text : String) : Except FormatError Name :=
  (ofUriChars text.toList).mapError .invalidUri

def inspect (name : Name) : String :=
  "Name(" ++ name.uri ++ ")"

end Name

end Bulletin
