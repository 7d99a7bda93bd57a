/-!
# Durations

A duration is a whole number of nanoseconds that is less than 2^64 seconds. Sums that would leave the
range stop at its end, `Duration.max`.
-/

namespace Bulletin

/-- A span of time in nanoseconds, below 2^64 seconds. -/
structure Duration where
  nanos : Nat
  inRange : nanos < UInt64.size * 1000000000
  deriving DecidableEq, Repr

namespace Duration

def max : Duration := ⟨UInt64.size * 1000000000 - 1, by decide⟩

/-- The duration of so many nanoseconds, or the longest one if there are too many. -/
def ofNanos (n : Nat) : Duration :=
  ⟨min n max.nanos, Nat.lt_of_le_of_lt (Nat.min_le_right _ _) max.inRange⟩

def ofMicros (n : Nat) : Duration :=
  ofNanos (n * 1000)

def ofMillis (n : Nat) : Duration :=
  ofNanos (n * 1000000)

def ofSeconds (seconds nanos : Nat) : Duration :=
  ofNanos (seconds * 1000000000 + nanos)

def micros (d : Duration) : Nat :=
  d.nanos / 1000

def millis (d : Duration) : Nat :=
  d.nanos / 1000000

def seconds (d : Duration) : Nat :=
  d.nanos / 1000000000

def subsecond (d : Duration) : Nat :=
  d.nanos % 1000000000

/-- The sum, stopping at the longest duration. -/
def add (a b : Duration) : Duration :=
  ofNanos (a.nanos + b.nanos)

instance : Add Duration := ⟨add⟩

/-- Twice the duration, stopping at the longest one. -/
def double (d : Duration) : Duration :=
  d + d

end Duration

end Bulletin
