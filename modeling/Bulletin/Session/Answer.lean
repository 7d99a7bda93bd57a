import Bulletin.Session.Timers

/-!
# Answering

A peer sends its summary, and the session answers with publications that the peer lacks.

The timers run first. Then the receipts of own publications that the peer has are given. The
candidates are the unexpired publications on offer that are missing from the peer; the policy puts
them in order, and the answer is the longest beginning that fits the budget, but at least the first.
-/

namespace Bulletin

/-- The longest beginning that fits the budget after `used` bytes. -/
def fill (budget used : Nat) : List Publication → List Publication
  | [] => []
  | p :: rest =>
    if used + p.size ≤ budget then p :: fill budget (used + p.size) rest else []

/-- The first publication, and as many more as fit the budget with it. -/
def page (budget : Nat) : List Publication → List Publication
  | [] => []
  | p :: rest => p :: fill budget p.size rest

def totalSize : List Publication → Nat
  | [] => 0
  | p :: rest => p.size + totalSize rest

namespace Entry

/-- Whether a receipt is owed that the peer's summary settles. -/
def isConfirmedBy (e : Entry) (id : PublicationId) (peer : Summary) : Bool :=
  e.own && !e.expired && e.receipt.isSome && peer.contains id

def confirmEvents (e : Entry) (id : PublicationId) (peer : Summary) : List Event :=
  match e.receipt with
  | some label =>
    if e.isConfirmedBy id peer then
      [.note (.confirmed id e.publication.name), .receipt label e.publication true]
    else []
  | none => []

end Entry

namespace Session

/-- Gives the receipts of own publications that the peer has, by ascending id. -/
def confirm (s : Session) (peer : Summary) : Step Unit where
  answer := ()
  session :=
    { s with
      table := s.table.mapEntries fun id e => if e.isConfirmedBy id peer then e.settled else e }
  events := s.table.byId.flatMap fun (id, e) => e.confirmEvents id peer

/-- The unexpired entries on offer that are missing from the peer, by ascending id. -/
def candidates (s : Session) (peer : Summary) : List Entry :=
  ((s.summary.missingFrom peer).filterMap s.table.find?).filter fun e => !e.expired

/-- The candidates as the policy orders them. -/
def offer (s : Session) (peer : Summary) : List Publication :=
  let candidates := s.candidates peer
  s.policy.arrange ((candidates.filter (·.own)).map (·.publication))
    ((candidates.filter fun e => !e.own).map (·.publication))

/-- Answers a peer's summary at `now`; there is no answer when nothing is on offer. -/
def answerPeer (s : Session) (peer : Summary) (now : Timestamp) : Step (Option (List Publication)) :=
  if s.closed then ⟨none, s, []⟩
  else
    -- What expires now is lost even if the peer has it.
    let advanced := s.advance now
    let confirmed := advanced.session.confirm peer
    let events := advanced.events ++ confirmed.events
    let offer := confirmed.session.offer peer
    if offer.isEmpty then ⟨none, confirmed.session, events⟩
    else
      let reply := page s.config.budget.toNat offer
      { answer := some reply
        session := confirmed.session
        events := events ++ [.note (.answered reply.length offer.length (totalSize reply))] }

end Session

end Bulletin
