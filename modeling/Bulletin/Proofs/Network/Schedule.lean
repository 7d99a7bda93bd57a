import Bulletin.Hub
import Bulletin.Proofs.Offer
import Mathlib.Data.List.Induction

/-!
# Schedule — many sessions and the messages between them

Sessions send each other their summaries and answer with publications. Nothing is assumed of what
carries the messages: each may be lost, copied, held back or overtaken. This file defines:

* `Network` — the sessions of a hub, and every message that was ever sent;
* `Action` and `Network.act` — one thing that may happen next;
* `Network.after` — the network that a schedule leaves behind;
* `Made` — the publications that the sessions of a schedule built;
* `Network.act_cases` — what one action can do;
* `Network.announced_of_summaries` — every summary on its way was its sender's at an earlier moment.

The clocks of the sessions are independent and arbitrary: every action brings its own time.
-/

namespace Bulletin

/-! ## Networks -/

/-- Sessions, with the messages they sent. A message stays when it is received: it may come again,
late, after others, or never. -/
structure Network where
  hub : Hub
  /-- The summaries that were sent, with their senders, oldest first. -/
  summaries : List (String × Summary)
  /-- The answers that were sent, oldest first. -/
  replies : List (List Publication)

/-- One thing that happens. A message is received by its number in the order of sending. -/
inductive Action where
  /-- A new session appears. -/
  | join (name : String) (config : SessionConfig) (policy : Policy) (selects : policy.Selects)
  | publish (name : String) (topic : Name) (payload : Bytes) (now : Timestamp)
      (receipt : Option String)
  | advance (name : String) (now : Timestamp)
  | close (name : String)
  | subscribe (name : String) (topic : Name) (label : String)
  | subscribeUri (name topic label : String)
  | unsubscribe (label : String)
  | poll (label : String)
  | drain (label : String)
  /-- A session sends its summary to the others. -/
  | announce (name : String)
  /-- A session answers a summary that another one sent. -/
  | answer (name : String) (message : Nat) (now : Timestamp)
  /-- A session takes in an answer. -/
  | ingest (name : String) (message : Nat) (now : Timestamp)

/-- What an action leads to: the network afterwards, and the events of the session that acts. -/
structure Outcome where
  network : Network
  events : List (String × Event) := []

def Session.replies (s : Session) : Call → List (List Publication)
  | .answerPeer peer now => (s.answerPeer peer now).answer.toList
  | _ => []

namespace Network

def empty : Network := ⟨.empty, [], []⟩

def perform (n : Network) (name : String) (call : Call) : Outcome :=
  match n.hub.session? name with
  | none => { network := n }
  | some s =>
    { network :=
        { n with
          hub := (n.hub.run name s fun s => s.perform call).hub
          replies := n.replies ++ s.replies call }
      events := (s.perform call).events.map fun event => (name, event) }

def withHub (n : Network) (hub : Hub) : Outcome :=
  { network := { n with hub := hub } }

/-- What an action leads to. Nothing happens if there is no such session, mailbox or message. -/
def act (n : Network) : Action → Outcome
  | .join name config policy _ =>
    match n.hub.session? name, Session.openWith config policy with
    | none, .ok s => n.withHub (n.hub.install name s)
    | _, _ => n.withHub n.hub
  | .publish name topic payload now receipt => n.perform name (.publish topic payload now receipt)
  | .advance name now => n.perform name (.advance now)
  | .close name => n.perform name .close
  | .subscribe name topic label =>
    n.withHub <| (n.hub.session? name).elim n.hub fun s => (n.hub.subscribe name s topic label).hub
  | .subscribeUri name topic label =>
    n.withHub <| (n.hub.session? name).elim n.hub fun s =>
      (n.hub.subscribeUri name s topic label).hub
  | .unsubscribe label => n.withHub (n.hub.dropMailbox label)
  | .poll label =>
    n.withHub <| (n.hub.mailbox? label).elim n.hub fun box => (n.hub.poll label box).2
  | .drain label =>
    n.withHub <| (n.hub.mailbox? label).elim n.hub fun box => (n.hub.drain label box).2
  | .announce name =>
    let sent := (n.hub.session? name).toList.map fun s => (name, s.summary)
    { network := { n with summaries := n.summaries ++ sent } }
  | .answer name message now =>
    match n.summaries[message]? with
    | none => { network := n }
    | some (sender, summary) =>
      -- A summary goes to the other sessions only.
      if sender = name then { network := n } else n.perform name (.answerPeer summary now)
  | .ingest name message now =>
    match n.replies[message]? with
    | none => { network := n }
    | some reply => n.perform name (.receive reply now)

def after (n : Network) : List Action → Network
  | [] => n
  | action :: rest => (n.act action).network.after rest

theorem after_append (n : Network) (first second : List Action) :
    n.after (first ++ second) = (n.after first).after second := by
  induction first generalizing n with
  | nil => rfl
  | cons action rest ih => exact ih (n.act action).network

/-- The action is a session's publishing of `p`, which the session answers with its id. -/
def Builds (n : Network) (action : Action) (p : Publication) : Prop :=
  ∃ name topic payload now receipt s id,
    action = .publish name topic payload now receipt ∧ n.hub.session? name = some s ∧
      (s.publish topic payload now receipt).answer = .ok (.published id) ∧
      p = .stamped topic now payload

end Network

/-- Some session built the publication during the schedule. -/
def Made (actions : List Action) (p : Publication) : Prop :=
  ∃ early action later, actions = early ++ action :: later ∧
    (Network.empty.after early).Builds action p

theorem Made.append {actions : List Action} {p : Publication} (h : Made actions p)
    (more : List Action) : Made (actions ++ more) p := by
  rcases h with ⟨early, action, later, rfl, hbuilds⟩
  exact ⟨early, action, later ++ more, by simp, hbuilds⟩

/-! ## What one action can do -/

namespace Network

/-- The action lets the session of that name make the call. -/
inductive Requests (n : Network) : Action → String → Call → Prop where
  | publish {name topic payload now receipt} :
      Requests n (.publish name topic payload now receipt) name
        (.publish topic payload now receipt)
  | advance {name now} : Requests n (.advance name now) name (.advance now)
  | close {name} : Requests n (.close name) name .close
  | answer {name message now sender summary} :
      n.summaries[message]? = some (sender, summary) → sender ≠ name →
      Requests n (.answer name message now) name (.answerPeer summary now)
  | ingest {name message now reply} :
      n.replies[message]? = some reply →
      Requests n (.ingest name message now) name (.receive reply now)

/-- A session makes a call, or announces its summary, or sessions and mailboxes come and go without
an event. -/
theorem act_cases (n : Network) (action : Action) :
    (∃ name call, n.Requests action name call ∧ n.act action = n.perform name call) ∨
      (∃ name s, action = .announce name ∧ n.hub.session? name = some s ∧
        n.act action = { network := { n with summaries := n.summaries ++ [(name, s.summary)] } }) ∨
      ∃ hub, n.act action = n.withHub hub := by
  cases action with
  | join name config policy selects =>
      right
      right
      simp only [act]
      split
      · exact ⟨_, rfl⟩
      · exact ⟨_, rfl⟩
  | publish => exact Or.inl ⟨_, _, .publish, rfl⟩
  | advance => exact Or.inl ⟨_, _, .advance, rfl⟩
  | close => exact Or.inl ⟨_, _, .close, rfl⟩
  | subscribe | subscribeUri | unsubscribe | poll | drain => exact Or.inr (Or.inr ⟨_, rfl⟩)
  | announce name =>
      right
      cases hsession : n.hub.session? name with
      | none => exact Or.inr ⟨n.hub, by simp [act, withHub, hsession]⟩
      | some s => exact Or.inl ⟨name, s, rfl, hsession, by simp [act, hsession]⟩
  | answer name message now =>
      simp only [act]
      split
      · exact Or.inr (Or.inr ⟨n.hub, rfl⟩)
      · rename_i sender summary hsummary
        split
        · exact Or.inr (Or.inr ⟨n.hub, rfl⟩)
        · rename_i hother
          exact Or.inl ⟨_, _, .answer hsummary hother, rfl⟩
  | ingest name message now =>
      simp only [act]
      split
      · exact Or.inr (Or.inr ⟨n.hub, rfl⟩)
      · rename_i reply hreply
        exact Or.inl ⟨_, _, .ingest hreply, rfl⟩

/-! ## Summaries on their way -/

/-- Only announcing sends a summary, and it is the sender's. -/
theorem summaries_act (n : Network) (action : Action) :
    (n.act action).network.summaries = n.summaries ∨
      ∃ name s, action = .announce name ∧ n.hub.session? name = some s ∧
        (n.act action).network.summaries = n.summaries ++ [(name, s.summary)] := by
  rcases n.act_cases action with
    ⟨name, call, -, hact⟩ | ⟨name, s, hannounce, hsession, hact⟩ | ⟨hub, hact⟩
  · left
    rw [hact, perform]
    split
    · rfl
    · rfl
  · exact Or.inr ⟨name, s, hannounce, hsession, by rw [hact]⟩
  · exact Or.inl (by rw [hact, withHub])

/-- A summary on its way was announced: it is what its sender had on offer at that moment. -/
theorem announced_of_summaries {actions : List Action} {message : Nat} {sender : String}
    {summary : Summary}
    (h : (empty.after actions).summaries[message]? = some (sender, summary)) :
    ∃ early middle t, actions = early ++ .announce sender :: middle ∧
      (empty.after early).summaries.length = message ∧
      (empty.after early).hub.session? sender = some t ∧ t.summary = summary := by
  -- By induction on the last action: it sent the summary, or the summary was there before.
  induction actions using List.reverseRecOn with
  | nil => simp [after, empty] at h
  | append_singleton rest action ih =>
      rw [after_append] at h
      have hearlier : (empty.after rest).summaries[message]? = some (sender, summary) →
          ∃ early middle t, rest ++ [action] = early ++ .announce sender :: middle ∧
            (empty.after early).summaries.length = message ∧
            (empty.after early).hub.session? sender = some t ∧ t.summary = summary := by
        intro hthere
        rcases ih hthere with ⟨early, middle, t, rfl, hrest⟩
        exact ⟨early, middle ++ [action], t, by simp, hrest⟩
      rcases (empty.after rest).summaries_act action with hsame | ⟨name, s, rfl, hsession, hsent⟩
      · exact hearlier (hsame ▸ h)
      · have hlast : ((empty.after rest).summaries ++ [(name, s.summary)])[message]? =
            some (sender, summary) := hsent ▸ h
        by_cases hold : message < (empty.after rest).summaries.length
        · rw [List.getElem?_append_left hold] at hlast
          exact hearlier hlast
        · rw [List.getElem?_append_right (Nat.le_of_not_lt hold)] at hlast
          rcases List.getElem?_eq_some_iff.mp hlast with ⟨hzero, hpair⟩
          have hnumber : (empty.after rest).summaries.length = message := by
            simp only [List.length_singleton] at hzero
            omega
          rw [List.getElem_singleton] at hpair
          cases hpair
          exact ⟨rest, [], s, rfl, hnumber, hsession, rfl⟩

end Network

end Bulletin
