import Bulletin.Bytes
import Bulletin.Text.Hidden

/-!
# Quoted text

Text and single characters between quotes, for messages to a developer. The quote itself, the
backslash and the usual control characters are written as a backslash and one more character; other
characters that do not show are written by their code point in hexadecimal; the rest stands as it is.
-/

namespace Bulletin.Text

/-- A code point in lowercase hexadecimal, between braces. -/
def escapeCodePoint (c : Char) : List Char :=
  ['\\', 'u', '\x7b'] ++ Nat.toDigits 16 c.toNat ++ ['\x7d']

/-- A character as it stands between two `quote`s. -/
def quoteInner (quote c : Char) : List Char :=
  if c = quote ∨ c = '\\' then ['\\', c]
  else if c = '\x00' then ['\\', '0']
  else if c = '\t' then ['\\', 't']
  else if c = '\r' then ['\\', 'r']
  else if c = '\n' then ['\\', 'n']
  else if isHidden c then escapeCodePoint c
  else [c]

def quoted (text : String) : String :=
  String.ofList (['"'] ++ text.toList.flatMap (quoteInner '"') ++ ['"'])

def quotedChar (c : Char) : String :=
  String.ofList (['\x27'] ++ quoteInner '\x27' c ++ ['\x27'])

end Bulletin.Text
