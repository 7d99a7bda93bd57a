import Bulletin.Freshness
import Bulletin.Note
import Bulletin.Reconcile

/-!
# Policies

The two decisions that a session leaves to its application: which received publications are still
valid, and in which order publications are offered to a peer. `Policy.lifecycle` is the usual choice:
a freshness window, and own publications first, newest first.
-/

namespace Bulletin

/-- The decisions that a session leaves to its application. -/
structure Policy where
  /-- Whether a publication is worth keeping at that time. -/
  valid : Publication → Timestamp → Bool
  /-- One's own publications and those of others, as one sequence. -/
  arrange : List Publication → List Publication → List Publication
  /-- What is remarked each time the validity of a publication is asked for. -/
  remarks : Publication → Timestamp → List Note := fun _ _ => []

namespace Policy

/-- Valid is what is fresh; one's own come first, newest first. -/
def lifecycle (w : Window) : Policy where
  valid := w.fresh
  arrange := reconcile
  remarks p now := [.checked p.name p.timestamp now (w.expired p now)]

/-- Nothing is valid and nothing is offered. -/
def rejectAll : Policy where
  valid _ _ := false
  arrange _ _ := []

/-- Everything is valid; those of others come first, all as they were. -/
def othersFirst : Policy where
  valid _ _ := true
  arrange ours others := others ++ ours

end Policy

end Bulletin
