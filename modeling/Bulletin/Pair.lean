import Bulletin.Session.Answer
import Bulletin.Session.Publish
import Bulletin.Session.Receive

/-!
# Pairs of sessions

Two sessions of one configuration that share a clock moved by hand, for trying out an exchange from
both sides.
-/

namespace Bulletin

structure Pair where
  clock : ManualClock
  left : Session
  right : Session

structure ExchangeReport where
  leftToRight : Nat
  rightToLeft : Nat
  deriving DecidableEq, Repr

structure PairStep (α : Type) where
  answer : α
  pair : Pair
  events : List Event

namespace Pair

def epoch : Timestamp := ⟨1700000000000000⟩

/-- Two sessions with a given configuration, if it is usable. -/
def make (config : SessionConfig) : Except SessionError Pair :=
  match Session.openDefault (config.withLabel "left"), Session.openDefault (config.withLabel "right")
  with
  | .ok left, .ok right => .ok ⟨⟨epoch⟩, left, right⟩
  | .error e, _ => .error e
  | _, .error e => .error e

def now (pair : Pair) : Timestamp :=
  pair.clock.now

def advance (pair : Pair) (d : Duration) : Pair :=
  { pair with clock := pair.clock.advance d }

def onLeft {α : Type} (pair : Pair) (call : Session → Step α) : PairStep α :=
  let step := call pair.left
  ⟨step.answer, { pair with left := step.session }, step.events⟩

def onRight {α : Type} (pair : Pair) (call : Session → Step α) : PairStep α :=
  let step := call pair.right
  ⟨step.answer, { pair with right := step.session }, step.events⟩

/-- One session answers the other's summary, which takes the answer in: how many publications it
accepted, both sessions afterwards, and the events. -/
def transfer (source target : Session) (now : Timestamp) :
    Except SessionError (Nat × Session × Session × List Event) :=
  let answered := source.answerPeer target.summary now
  match answered.answer with
  | none => .ok (0, answered.session, target, answered.events)
  | some sent =>
    let received := target.receive sent now
    match received.answer with
    | .error e => .error e
    | .ok report =>
      .ok (report.accepted, answered.session, received.session, answered.events ++ received.events)

/-- One transfer from left to right, then one from right to left. -/
def exchange (pair : Pair) : Except SessionError (PairStep ExchangeReport) :=
  match transfer pair.left pair.right pair.now with
  | .error e => .error e
  | .ok (toRight, left, right, first) =>
    match transfer right left pair.now with
    | .error e => .error e
    | .ok (toLeft, right, left, second) =>
      .ok ⟨⟨toRight, toLeft⟩, { pair with left, right }, first ++ second⟩

end Pair

end Bulletin
