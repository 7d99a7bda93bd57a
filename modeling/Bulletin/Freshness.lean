import Bulletin.Publication.Basic

/-!
# Freshness

How long a publication counts as current. A window has a lifetime and a tolerance for clocks that
disagree; a publication stamped at `t` is fresh at `now` when

    t - skew < now < t + lifetime + skew

in whole microseconds. A publication without a timestamp counts as stamped at zero.
-/

namespace Bulletin

/-- How long publications last, and how far clocks may be apart. -/
structure Window where
  lifetime : Duration := .ofMillis 1000
  skew : Duration := .ofMillis 1000
  deriving DecidableEq, Repr

namespace Window

/-- The age at which a publication is too old to be offered. -/
def horizon (w : Window) : Duration :=
  w.lifetime + w.skew

/-- Whether a publication is outside the window at `now`: too old, or too far in the future. -/
def expired (w : Window) (p : Publication) (now : Timestamp) : Bool :=
  let elapsed := now.since p.timestamp
  decide (elapsed ≥ (w.lifetime.micros + w.skew.micros : Int)) ||
    decide (elapsed ≤ -(w.skew.micros : Int))

def fresh (w : Window) (p : Publication) (now : Timestamp) : Bool :=
  !w.expired p now

end Window

end Bulletin
