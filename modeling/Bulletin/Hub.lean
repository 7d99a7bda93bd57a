import Bulletin.Session.Answer
import Bulletin.Session.Publish
import Bulletin.Session.Receive

/-!
# Hubs

A hub runs several sessions side by side and keeps the mailboxes of their subscriptions.

- Sessions have names. Opening one under a name in use replaces the old one.
- A mailbox has a label. It queues what its subscription receives. It ends when its session is closed,
  dropped or replaced; what is queued can still be taken.

`Hub.run` performs a call of one session and puts its deliveries in the mailboxes; everything else is
built from it.
-/

namespace Bulletin

structure Mailbox where
  /-- The session and the subscription that fill it; none once the session is gone. -/
  source : Option (String × Nat)
  topic : Name
  /-- What was received and not taken yet, oldest first. -/
  queue : List Publication

/-- Sessions by name, and mailboxes by label. -/
structure Hub where
  sessions : List (String × Session)
  mailboxes : List (String × Mailbox)

/-- An event, with the label of the session it happened in. -/
structure Occurrence where
  session : String
  event : Event
  deriving DecidableEq, Repr

namespace Occurrence

/-- The line of the log that an occurrence gives, if it is a remark. -/
def line? (o : Occurrence) : Option String :=
  match o.event with
  | .note remark => some (remark.line o.session)
  | _ => none

def receipt? (o : Occurrence) : Option (String × Publication × Bool) :=
  o.event.receipt?

end Occurrence

structure HubStep (α : Type) where
  answer : α
  hub : Hub
  occurrences : List Occurrence

inductive Poll where
  /-- The oldest publication that was not taken yet. -/
  | item (publication : Publication)
  /-- Nothing now; more may come. -/
  | pending
  /-- Nothing, now or later. -/
  | ended
  deriving DecidableEq, Repr

namespace Mailbox

def take (box : Mailbox) (session : String) : Event → Mailbox
  | .delivery token publication =>
    if box.source = some (session, token) then { box with queue := box.queue ++ [publication] }
    else box
  | _ => box

/-- The mailbox after the events of a call, or of many. -/
def takeAll (box : Mailbox) (session : String) (events : List Event) : Mailbox :=
  events.foldl (fun box event => box.take session event) box

/-- The mailbox when the session of that name goes away. -/
def detach (box : Mailbox) (session : String) : Mailbox :=
  match box.source with
  | some (name, _) => if name = session then { box with source := none } else box
  | none => box

end Mailbox

namespace Hub

/-- The value under a key, put in place of the old one or at the end. -/
def assign {α : Type} (key : String) (value : α) (pairs : List (String × α)) : List (String × α) :=
  if pairs.any (·.1 == key) then pairs.map fun pair => if pair.1 = key then (key, value) else pair
  else pairs ++ [(key, value)]

def unassign {α : Type} (key : String) (pairs : List (String × α)) : List (String × α) :=
  pairs.filter fun pair => pair.1 != key

def empty : Hub := ⟨[], []⟩

def session? (hub : Hub) (name : String) : Option Session :=
  hub.sessions.lookup name

def mailbox? (hub : Hub) (label : String) : Option Mailbox :=
  hub.mailboxes.lookup label

def setSession (hub : Hub) (name : String) (s : Session) : Hub :=
  { hub with sessions := assign name s hub.sessions }

def mapMailboxes (hub : Hub) (f : Mailbox → Mailbox) : Hub :=
  { hub with mailboxes := hub.mailboxes.map fun (label, box) => (label, f box) }

def deliver (hub : Hub) (name : String) (events : List Event) : Hub :=
  hub.mapMailboxes fun box => box.takeAll name events

/-- Puts a session under a name, in place of any other. -/
def install (hub : Hub) (name : String) (s : Session) : Hub :=
  (hub.mapMailboxes fun box => box.detach name).setSession name s

def dropSession (hub : Hub) (name : String) : Hub :=
  let hub := hub.mapMailboxes fun box => box.detach name
  { hub with sessions := unassign name hub.sessions }

/-- Performs a call of the session `s`, which is the one of that name. -/
def run {α : Type} (hub : Hub) (name : String) (s : Session) (call : Session → Step α) :
    HubStep α :=
  let step := call s
  { answer := step.answer
    hub := (hub.setSession name step.session).deliver name step.events
    occurrences := step.events.map fun event => ⟨s.label, event⟩ }

/-- Takes a mailbox away and cancels its subscription. -/
def dropMailbox (hub : Hub) (label : String) : Hub :=
  match hub.mailbox? label with
  | none => hub
  | some box =>
    let hub := { hub with mailboxes := unassign label hub.mailboxes }
    match box.source with
    | none => hub
    | some (name, token) =>
      match hub.session? name with
      | none => hub
      | some s => hub.setSession name (s.cancel token)

/-- Gives a new subscription of a session its mailbox. An old mailbox of that label goes away, after
the new subscription was made. -/
def attach (hub : Hub) (name label : String) (subscription : Subscription) : Hub :=
  let hub := hub.dropMailbox label
  let box : Mailbox := ⟨some (name, subscription.token), subscription.topic, []⟩
  { hub with mailboxes := assign label box hub.mailboxes }

def subscribe (hub : Hub) (name : String) (s : Session) (topic : Name) (label : String) :
    HubStep Subscription :=
  let step := hub.run name s fun s => s.subscribe topic
  { step with hub := step.hub.attach name label step.answer }

def subscribeUri (hub : Hub) (name : String) (s : Session) (topic label : String) :
    HubStep (Except SessionError Subscription) :=
  let step := hub.run name s fun s => s.subscribeUri topic
  match step.answer with
  | .error _ => step
  | .ok subscription => { step with hub := step.hub.attach name label subscription }

/-- Whether a mailbox may still be filled. -/
def feeds (hub : Hub) (box : Mailbox) : Bool :=
  match box.source with
  | none => false
  | some (name, token) =>
    match hub.session? name with
    | none => false
    | some s => s.subscriptions.any (·.token == token)

/-- What a mailbox has for its owner, and the hub once that is taken. -/
def poll (hub : Hub) (label : String) (box : Mailbox) : Poll × Hub :=
  match box.queue with
  | publication :: rest =>
    (.item publication,
      { hub with mailboxes := assign label { box with queue := rest } hub.mailboxes })
  | [] => (if hub.feeds box then .pending else .ended, hub)

def drain (hub : Hub) (label : String) (box : Mailbox) : List Publication × Hub :=
  (box.queue, { hub with mailboxes := assign label { box with queue := [] } hub.mailboxes })

structure Transfer where
  sent : List Publication
  report : Except SessionError ReceiveReport

/-- One session answers the summary of another, which takes the answer in. -/
def exchange (hub : Hub) (source : String) (s : Session) (target : String) (t : Session)
    (now : Timestamp) : HubStep (Option Transfer) :=
  let answered := hub.run source s fun s => s.answerPeer t.summary now
  match answered.answer with
  | none => ⟨none, answered.hub, answered.occurrences⟩
  | some sent =>
    -- The receiver may be the session that answered.
    let receiver := (answered.hub.session? target).getD t
    let received := answered.hub.run target receiver fun t => t.receive sent now
    ⟨some ⟨sent, received.answer⟩, received.hub, answered.occurrences ++ received.occurrences⟩

end Hub

end Bulletin
