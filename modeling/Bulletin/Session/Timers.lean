import Bulletin.Session.Basic

/-!
# Timers

The timers of an entry run from its arrival:

- after the lifetime it is *expired*: it is no longer offered, and a receipt still owed says that it
  was lost,
- after lifetime and skew it is *unpublished*: it leaves the summary,
- after twice the lifetime it is *forgotten*: it leaves the table, and the summary if it is still there.

`Session.advance` runs the timers of all entries to a time. Reports and events come by ascending id,
the lost receipts after everything else.
-/

namespace Bulletin

/-- Which publications a run of the timers changed, by ascending id. -/
structure TimerReport where
  expired : List PublicationId
  unpublished : List PublicationId
  forgotten : List PublicationId
  deriving DecidableEq, Repr

def TimerReport.isEmpty (r : TimerReport) : Bool :=
  r.expired.isEmpty && r.unpublished.isEmpty && r.forgotten.isEmpty

namespace Entry

def expires (e : Entry) (w : Window) (now : Timestamp) : Bool :=
  !e.expired && decide (e.arrived.after w.lifetime ≤ now)

def isForgotten (e : Entry) (w : Window) (now : Timestamp) : Bool :=
  decide (e.arrived.after w.lifetime.double ≤ now)

/-- Whether the entry leaves the summary at `now`. -/
def unpublishes (e : Entry) (w : Window) (now : Timestamp) : Bool :=
  e.active && (e.isForgotten w now || decide (e.arrived.after w.horizon ≤ now))

/-- The entry after its timers ran to `now`, unless it is forgotten. -/
def aged (e : Entry) (w : Window) (now : Timestamp) : Option Entry :=
  if e.isForgotten w now then none
  else
    some
      { e with
        expired := e.expired || e.expires w now
        active := e.active && !e.unpublishes w now
        receipt := if e.expires w now then none else e.receipt }

def timerNotes (e : Entry) (id : PublicationId) (w : Window) (now : Timestamp) : List Note :=
  (if e.expires w now then [.expired id] else []) ++
    (if e.unpublishes w now then [.unpublished id] else []) ++
    (if e.isForgotten w now then [.forgotten id] else [])

def lossEvents (e : Entry) (w : Window) (now : Timestamp) : List Event :=
  match e.receipt with
  | some label =>
    if e.expires w now then
      [.note (.unconfirmed e.publication.name), .receipt label e.publication false]
    else []
  | none => []

end Entry

namespace Session

/-- The ids of the entries that a test picks out, ascending. -/
def idsWhere (s : Session) (test : Entry → Bool) : List PublicationId :=
  (s.table.byId.filter fun row => test row.2).map Prod.fst

/-- Runs the timers of all entries to `now`. -/
def advance (s : Session) (now : Timestamp) : Step TimerReport :=
  let w := s.config.window
  let rows := s.table.byId
  let unpublished := s.idsWhere (·.unpublishes w now)
  { answer :=
      { expired := s.idsWhere (·.expires w now)
        unpublished
        forgotten := s.idsWhere (·.isForgotten w now) }
    session :=
      { s with
        table := s.table.update fun _ e => e.aged w now
        summary := s.summary.eraseAll unpublished }
    -- Lost receipts come last, when all timers have run.
    events :=
      (rows.flatMap fun (id, e) => (e.timerNotes id w now).map Event.note) ++
        rows.flatMap fun (_, e) => e.lossEvents w now }

end Session

end Bulletin
