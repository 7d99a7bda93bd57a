import Bulletin.Time.Timestamp
import Std.Time.DateTime.Timestamp

/-!
# The wall clock

Reading the time of day, in microseconds since the start of 1970.
-/

namespace Bulletin

/-- A count of microseconds as a timestamp, moved to the nearest end of the range if it lies outside. -/
def Timestamp.clamp (micros : Int) : Timestamp :=
  .ofNat (min micros.toNat (UInt64.size - 1))

def wallClock : IO Timestamp := do
  let now ← Std.Time.Timestamp.now
  return .clamp (now.toNanosecondsSinceUnixEpoch.val / 1000)

end Bulletin
