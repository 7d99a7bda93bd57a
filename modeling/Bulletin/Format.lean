/-!
# Refused input

Why a byte string or a text is refused as a number, an element, a component or a name. A cause
carries what its message shows, and the wording stands in one function for each type:

- `UriFault`: what is wrong with one piece of a name in URI form,
- `FormatError`: every cause, of bytes and of text.
-/

namespace Bulletin

def decimal (n : Nat) : String :=
  String.ofList (Nat.toDigits 10 n)

/-- What is wrong with one piece of a name in URI form. -/
inductive UriFault where
  /-- The text after the timestamp marker is not a 64-bit number. -/
  | badTimestamp (piece : String)
  /-- The type before the equals sign is not in 1 to 65535. -/
  | badType (piece : String)
  /-- A percent sign is not followed by two hexadecimal digits. -/
  | badEscape (body : String)
  /-- The piece stands for no component: nothing, or one or two periods. -/
  | reserved (piece : String)
  deriving DecidableEq, Repr

def UriFault.message : UriFault → String
  | badTimestamp piece => "bad timestamp: " ++ piece
  | badType piece => "bad type: " ++ piece
  | badEscape body => "bad escape in " ++ body
  | reserved piece => "reserved component: " ++ piece

inductive FormatError where
  /-- The number is no component type. -/
  | invalidComponentType (type : Nat)
  /-- The bytes end too early: so many were needed, so many were there. -/
  | truncated (needed available : Nat)
  /-- An element of another type was due. -/
  | unexpectedType (expected got : Nat)
  /-- A sized integer of a length other than 1, 2, 4 or 8. -/
  | invalidIntegerLength (length : Nat)
  /-- So many bytes are left after the element. -/
  | trailingBytes (count : Nat)
  /-- The text is no name in URI form. -/
  | invalidUri (fault : UriFault)
  deriving DecidableEq, Repr

def FormatError.message : FormatError → String
  | invalidComponentType type => "invalid component TLV-TYPE: " ++ decimal type
  | truncated needed available =>
    "truncated TLV: need " ++ decimal needed ++ " bytes, have " ++ decimal available
  | unexpectedType expected got =>
    "unexpected TLV-TYPE: expected " ++ decimal expected ++ ", got " ++ decimal got
  | invalidIntegerLength length => "invalid NonNegativeInteger length: " ++ decimal length
  | trailingBytes count => decimal count ++ " trailing bytes after TLV"
  | invalidUri fault => "invalid name URI: " ++ fault.message

end Bulletin
