import Bulletin.Time.Duration

/-!
# Timestamps and clocks

A timestamp is a 64-bit count of microseconds. Moving one later stops at the last representable
instant; the distance of two is a signed integer.

`ManualClock` is a clock that only moves when it is told to.
-/

namespace Bulletin

/-- An instant, in microseconds. -/
structure Timestamp where
  micros : UInt64
  deriving DecidableEq, Repr

namespace Timestamp

def toNat (t : Timestamp) : Nat :=
  t.micros.toNat

/-- The instant `n` microseconds from zero, for `n` below 2^64. -/
def ofNat (n : Nat) : Timestamp :=
  ⟨UInt64.ofNat n⟩

def zero : Timestamp := ⟨0⟩

instance : LE Timestamp := ⟨fun a b => a.toNat ≤ b.toNat⟩

instance : LT Timestamp := ⟨fun a b => a.toNat < b.toNat⟩

instance (a b : Timestamp) : Decidable (a ≤ b) :=
  inferInstanceAs (Decidable (a.toNat ≤ b.toNat))

instance (a b : Timestamp) : Decidable (a < b) :=
  inferInstanceAs (Decidable (a.toNat < b.toNat))

def compare (a b : Timestamp) : Ordering :=
  Ord.compare a.toNat b.toNat

instance : Ord Timestamp := ⟨compare⟩

/-- The instant a duration later, in whole microseconds, stopping at the last instant. -/
def after (t : Timestamp) (d : Duration) : Timestamp :=
  ofNat (min (t.toNat + d.micros) (UInt64.size - 1))

/-- How many microseconds `t` is later than `origin`; negative when it is earlier. -/
def since (t origin : Timestamp) : Int :=
  (t.toNat : Int) - origin.toNat

theorem ofNat_toNat (t : Timestamp) : ofNat t.toNat = t := by
  rw [ofNat, toNat, UInt64.ofNat_toNat]

end Timestamp

/-- A clock that shows the same instant until it is set or moved on. -/
structure ManualClock where
  now : Timestamp
  deriving DecidableEq, Repr

namespace ManualClock

def set (_ : ManualClock) (t : Timestamp) : ManualClock :=
  ⟨t⟩

def advance (clock : ManualClock) (d : Duration) : ManualClock :=
  ⟨clock.now.after d⟩

end ManualClock

end Bulletin
