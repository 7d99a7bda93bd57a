import Bulletin.Session.Config
import Bulletin.Text.Quoted

/-!
# Errors of the library

One type for every error that the library reports, with the message for a reader, the message of the
wrapped error, and the form shown to a developer.
-/

namespace Bulletin

/-- The error as shown to a developer. -/
def FormatError.inspect : FormatError → String
  | invalidComponentType type => "InvalidComponentType(" ++ decimal type ++ ")"
  | truncated needed available =>
    "Truncated \x7b needed: " ++ decimal needed ++ ", available: " ++ decimal available ++ " \x7d"
  | unexpectedType expected got =>
    "UnexpectedType \x7b expected: " ++ decimal expected ++ ", got: " ++ decimal got ++ " \x7d"
  | invalidIntegerLength length => "InvalidNniLength(" ++ decimal length ++ ")"
  | trailingBytes count => "TrailingBytes(" ++ decimal count ++ ")"
  | invalidUri fault => "InvalidUri(" ++ Text.quoted fault.message ++ ")"

def SessionError.inspect : SessionError → String
  | closed => "Closed"
  | invalidConfig fault => "InvalidConfig(" ++ Text.quoted fault.message ++ ")"
  | unreadableConfig => "ConfigParse"
  | badTopic error => "Core(" ++ error.inspect ++ ")"

inductive Error where
  | format (error : FormatError)
  | session (error : SessionError)
  deriving DecidableEq, Repr

namespace Error

def message : Error → String
  | format error => "core error: " ++ error.message
  | session error => "sync error: " ++ error.message

/-- The messages of the errors that this one wraps, outermost first. -/
def causes : Error → List String
  | format error => [error.message]
  | session error => [error.message]

def inspect : Error → String
  | format error => "Core(" ++ error.inspect ++ ")"
  | session error => "Sync(" ++ error.inspect ++ ")"

end Error

end Bulletin
