import Bulletin.Policy
import Bulletin.Session.Config
import Bulletin.Session.Subscription
import Bulletin.Session.Table
import Bulletin.Summary

/-!
# Sessions

A session takes part in the exchange of publications. It holds the publications it knows, the summary
of those on offer, and the subscriptions of its application.

Every call is a function from a session to a `Step`: the answer to the caller, the session afterwards,
and the events in the order in which they happened. Publishing, receiving, the timers and answering
have files of their own.
-/

namespace Bulletin

inductive Event where
  /-- A remark for the log. -/
  | note (remark : Note)
  /-- A publisher learns whether a peer has its publication. -/
  | receipt (label : String) (publication : Publication) (confirmed : Bool)
  /-- A subscription receives a publication. -/
  | delivery (token : Nat) (publication : Publication)
  deriving DecidableEq, Repr

/-- The receipt that an event is: its label, the publication, and whether it is confirmed. -/
def Event.receipt? : Event → Option (String × Publication × Bool)
  | receipt label publication confirmed => some (label, publication, confirmed)
  | _ => none

structure Session where
  config : SessionConfig
  policy : Policy
  table : Table
  summary : Summary
  subscriptions : List Subscription
  /-- The token of the next subscription. -/
  nextToken : Nat
  closed : Bool

/-- The outcome of a call: its answer, the session afterwards, and what happened on the way. -/
structure Step (α : Type) where
  answer : α
  session : Session
  events : List Event

namespace Session

def fresh (config : SessionConfig) (policy : Policy) : Session where
  config := config
  policy := policy
  table := .empty
  summary := .empty
  subscriptions := []
  nextToken := 0
  closed := false

/-- A session that leaves its decisions to `policy`, if the configuration is usable. -/
def openWith (config : SessionConfig) (policy : Policy) : Except SessionError Session :=
  match config.fault? with
  | some fault => .error (.invalidConfig fault)
  | none => .ok (fresh config policy)

/-- A session with the lifecycle policy of its own window. -/
def openDefault (config : SessionConfig) : Except SessionError Session :=
  openWith config (.lifecycle config.window)

def label (s : Session) : String :=
  s.config.label.getD "PubsubSession"

def ownCount (s : Session) : Nat :=
  s.table.entries.countP (·.own)

/-- How many subscriptions have not been cancelled. -/
def subscriptionCount (s : Session) : Nat :=
  s.subscriptions.countP (·.live)

def publication? (s : Session) (id : PublicationId) : Option Publication :=
  (s.table.find? id).map (·.publication)

def store (s : Session) (id : PublicationId) (e : Entry) : Session :=
  { s with table := s.table.insert id e, summary := s.summary.insert id }

/-- Asks for the publications under a topic; the answer is the new subscription. -/
def subscribe (s : Session) (topic : Name) : Step Subscription :=
  let subscription : Subscription := ⟨s.nextToken, topic, true⟩
  { answer := subscription
    session :=
      { s with
        subscriptions := s.subscriptions ++ [subscription]
        nextToken := s.nextToken + 1 }
    events := [] }

def subscribeUri (s : Session) (topic : String) : Step (Except SessionError Subscription) :=
  match Name.ofUri topic with
  | .error e => ⟨.error (.badTopic e), s, []⟩
  | .ok name =>
    let step := s.subscribe name
    ⟨.ok step.answer, step.session, step.events⟩

def cancel (s : Session) (token : Nat) : Session :=
  let mark (x : Subscription) : Subscription :=
    if x.token = token then { x with live := false } else x
  { s with subscriptions := s.subscriptions.map mark }

/-- Ends the session: receipts still owed are dropped, and subscriptions end. Closing again does
nothing. -/
def close (s : Session) : Step Unit :=
  if s.closed then ⟨(), s, []⟩
  else
    { answer := ()
      session :=
        { s with
          table := s.table.mapEntries fun _ e => e.settled
          subscriptions := []
          closed := true }
      events := [.note .closed] }

end Session

end Bulletin
