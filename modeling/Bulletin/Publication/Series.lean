import Bulletin.Publication.Basic

/-!
# Numbered publications

A series makes names, and publications, that are numbered from one on below a common topic.
-/

namespace Bulletin

/-- A topic, and how many names were made below it. -/
structure Series where
  topic : Name
  count : Nat := 0
  deriving DecidableEq, Repr

namespace Series

def nextName (series : Series) : Name × Series :=
  let count := series.count + 1
  (series.topic.appendGeneric (utf8 (Nat.toDigits 10 count)), { series with count })

/-- The next numbered publication, made at a given time. -/
def nextAt (series : Series) (t : Timestamp) (payload : Bytes) : Publication × Series :=
  let (name, series) := series.nextName
  (.stamped name t payload, series)

end Series

end Bulletin
