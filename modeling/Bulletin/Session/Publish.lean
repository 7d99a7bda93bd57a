import Bulletin.Session.Basic

/-!
# Publishing

An application publishes a payload under a name, which the session stamps with the current time. What
is known already changes nothing, and its receipt is never given.
-/

namespace Bulletin

inductive PublishOutcome where
  /-- It is stored and on offer. -/
  | published (id : PublicationId)
  /-- It was known already. -/
  | duplicate (id : PublicationId)
  deriving DecidableEq, Repr

namespace PublishOutcome

def id : PublishOutcome → PublicationId
  | published id => id
  | duplicate id => id

def isDuplicate : PublishOutcome → Bool
  | published _ => false
  | duplicate _ => true

end PublishOutcome

namespace Session

/-- Publishes a payload under a name stamped with `now`, and owes a receipt if one is asked for. -/
def publish (s : Session) (name : Name) (payload : Bytes) (now : Timestamp)
    (receipt : Option String) : Step (Except SessionError PublishOutcome) :=
  if s.closed then ⟨.error .closed, s, []⟩
  else
    let p := Publication.stamped name now payload
    let id := p.id
    if s.table.contains id then ⟨.ok (.duplicate id), s, [.note (.repeated id p.name)]⟩
    else
      { answer := .ok (.published id)
        session := s.store id (.arrival p true now receipt)
        events := [.note (.published id p.name)] }

end Session

end Bulletin
