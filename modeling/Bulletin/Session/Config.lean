import Bulletin.Format
import Bulletin.Freshness

/-!
# Session configuration

A session runs its timers from a freshness window, keeps its answers within a byte budget, and has a
label for its notes. A configuration is usable when its lifetime and its budget are positive.
-/

namespace Bulletin

structure SessionConfig where
  /-- Lifetime and clock skew. -/
  window : Window := {}
  /-- How many bytes of publications one answer may hold. -/
  budget : UInt64 := 1300
  /-- What the session is called in notes. -/
  label : Option String := none
  deriving DecidableEq, Repr

inductive ConfigFault where
  /-- The lifetime is zero. -/
  | noLifetime
  /-- The budget is zero. -/
  | noBudget
  deriving DecidableEq, Repr

def ConfigFault.message : ConfigFault → String
  | noLifetime => "max_pub_lifetime must be positive"
  | noBudget => "sync_data_pub_size must be positive"

inductive SessionError where
  /-- The session is closed. -/
  | closed
  /-- The configuration is not usable. -/
  | invalidConfig (fault : ConfigFault)
  /-- The text is no configuration. -/
  | unreadableConfig
  /-- The text is no topic. -/
  | badTopic (error : FormatError)
  deriving DecidableEq, Repr

def SessionError.message : SessionError → String
  | closed => "session closed"
  | invalidConfig fault => "invalid config: " ++ fault.message
  | unreadableConfig => "config parse error"
  | badTopic error => "core error: " ++ error.message

namespace SessionConfig

/-- What is wrong with the configuration; of two faults the lifetime comes first. -/
def fault? (config : SessionConfig) : Option ConfigFault :=
  if config.window.lifetime.nanos = 0 then some .noLifetime
  else if config.budget = 0 then some .noBudget
  else none

/-- The configuration itself when it is usable. -/
def validate (config : SessionConfig) : Except SessionError SessionConfig :=
  match config.fault? with
  | some fault => .error (.invalidConfig fault)
  | none => .ok config

def withLabel (config : SessionConfig) (label : String) : SessionConfig :=
  { config with label := some label }

end SessionConfig

end Bulletin
