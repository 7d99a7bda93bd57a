import Bulletin.Session.Basic

/-!
# Receiving

A session takes in publications that a peer sent. What is known is ignored, what the policy refuses is
ignored, and the rest is stored and handed to the subscriptions of the longest topic that covers its
name.
-/

namespace Bulletin

inductive Verdict where
  /-- Stored, and handed to a subscriber. -/
  | delivered
  /-- Stored, without a subscriber. -/
  | unclaimed
  /-- Ignored, as it was known. -/
  | known
  /-- Ignored, as the policy refused it. -/
  | refused
  deriving DecidableEq, Repr

structure ReceiveReport where
  delivered : Nat := 0
  unclaimed : Nat := 0
  known : Nat := 0
  refused : Nat := 0
  deriving DecidableEq, Repr

namespace ReceiveReport

def accepted (r : ReceiveReport) : Nat :=
  r.delivered + r.unclaimed

def count (r : ReceiveReport) : Verdict → ReceiveReport
  | .delivered => { r with delivered := r.delivered + 1 }
  | .unclaimed => { r with unclaimed := r.unclaimed + 1 }
  | .known => { r with known := r.known + 1 }
  | .refused => { r with refused := r.refused + 1 }

def ofVerdicts (verdicts : List Verdict) : ReceiveReport :=
  verdicts.foldl count {}

end ReceiveReport

namespace Session

/-- The subscriptions without the cancelled ones. -/
def purge (s : Session) : Step Unit :=
  let live := s.subscriptions.filter (·.live)
  let dropped := s.subscriptions.length - live.length
  { answer := ()
    session := { s with subscriptions := live }
    events := if 0 < dropped then [.note (.purged dropped)] else [] }

/-- Hands a publication to its subscribers; the answer is how many there are. -/
def deliver (s : Session) (p : Publication) : Step Nat :=
  let purged := s.purge
  let recipients := Subscription.recipients purged.session.subscriptions p.name
  { answer := recipients.length
    session := purged.session
    events := purged.events ++ recipients.map fun x => .delivery x.token p }

def accept (s : Session) (p : Publication) (now : Timestamp) : Step Verdict :=
  let id := p.id
  let delivered := (s.store id (.arrival p false now none)).deliver p
  let (verdict, note) :=
    if 0 < delivered.answer then (Verdict.delivered, Note.delivered id p.name)
    else (Verdict.unclaimed, Note.unclaimed id p.name)
  ⟨verdict, delivered.session, delivered.events ++ [.note note]⟩

def receiveOne (s : Session) (p : Publication) (now : Timestamp) : Step Verdict :=
  let id := p.id
  if s.table.contains id then ⟨.known, s, [.note (.ignoredKnown id p.name)]⟩
  else
    -- The policy is asked about unknown publications only.
    let remarks := (s.policy.remarks p now).map Event.note
    if s.policy.valid p now then
      let accepted := s.accept p now
      ⟨accepted.answer, accepted.session, remarks ++ accepted.events⟩
    else ⟨.refused, s, remarks ++ [.note (.ignoredExpired id p.name)]⟩

/-- Takes in publications one after the other; the answer has a verdict for each. -/
def receiveEach (s : Session) (publications : List Publication) (now : Timestamp) :
    Step (List Verdict) :=
  match publications with
  | [] => ⟨[], s, []⟩
  | p :: rest =>
    let first := s.receiveOne p now
    let others := first.session.receiveEach rest now
    ⟨first.answer :: others.answer, others.session, first.events ++ others.events⟩

def receive (s : Session) (publications : List Publication) (now : Timestamp) :
    Step (Except SessionError ReceiveReport) :=
  if s.closed then ⟨.error .closed, s, []⟩
  else
    let step := s.receiveEach publications now
    ⟨.ok (.ofVerdicts step.answer), step.session, step.events⟩

end Session

end Bulletin
