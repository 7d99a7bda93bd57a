import Bulletin.Publication.Basic

/-!
# The order of an answer

Publications are offered newest first, one's own before those of others, and those of others only
beside at least one of one's own.
-/

namespace Bulletin

/-- Whether `a` may stand before `b`: it is not the older one. -/
def notOlder (a b : Publication) : Bool :=
  decide (b.timestamp ≤ a.timestamp)

/-- The publications by descending timestamp; equal timestamps keep their order. -/
def newestFirst (publications : List Publication) : List Publication :=
  publications.mergeSort notOlder

/-- One's own publications newest first, then the others newest first; nothing without own ones. -/
def reconcile (ours others : List Publication) : List Publication :=
  if ours.isEmpty then [] else newestFirst ours ++ newestFirst others

end Bulletin
