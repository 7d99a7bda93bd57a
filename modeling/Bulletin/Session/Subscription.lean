import Bulletin.Name.Basic

/-!
# Subscriptions

A subscription asks for every publication under a topic. Of the topics that cover a name the longest
wins, and all subscriptions to it receive the publication.

A session numbers its subscriptions. A cancelled one stays in the list until the next delivery finds
it; it receives nothing.
-/

namespace Bulletin

/-- A standing request for the publications under a topic. -/
structure Subscription where
  token : Nat
  topic : Name
  /-- It has not been cancelled. -/
  live : Bool
  deriving DecidableEq, Repr

namespace Subscription

def covering (subscriptions : List Subscription) (name : Name) : List Subscription :=
  subscriptions.filter fun s => s.topic.covers name

/-- The length of the longest of their topics. -/
def longest? (subscriptions : List Subscription) : Option Nat :=
  (subscriptions.map fun s => s.topic.length).max?

def recipients (subscriptions : List Subscription) (name : Name) : List Subscription :=
  let candidates := covering subscriptions name
  candidates.filter fun s => longest? candidates = some s.topic.length

end Subscription

end Bulletin
