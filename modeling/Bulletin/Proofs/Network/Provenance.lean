import Bulletin.Proofs.Delivery
import Bulletin.Proofs.Invariant
import Bulletin.Proofs.Network.Schedule
import Bulletin.Proofs.Receipt.Events

/-!
# Provenance — where publications and receipts come from

Whatever a network carries and in whatever order, the sessions add nothing of their own to what they
published, and a receipt is given only for what another session had on offer. The proof follows a
property of publications from where they are built to everywhere they can get:

* `Session.Within`, `Hub.Within`, `Network.Sound` — everything stored, queued or sent has the
  property;
* `Session.Admits` — so has what a call brings into a session;
* `Network.Sound.act` and `Network.sound_after` — one action, and any schedule;
* `Session.Consistent.confirmed_by_peer` — a receipt is given for an id in the summary answered;
* `Network.provenance` — both together, for every schedule.
-/

namespace Bulletin

variable {P : Publication → Prop}

/-! ## One session -/

namespace Session

variable {s : Session}

/-- Every publication in the table has the property. The rest is what that needs to last: the session
is in order, and its policy makes nothing up. -/
structure Within (s : Session) (P : Publication → Prop) : Prop where
  consistent : s.Consistent
  numbered : s.Numbered
  selects : s.policy.Selects
  known : ∀ id e, s.table.find? id = some e → P e.publication

/-- What the call publishes or receives has the property. -/
def Admits (s : Session) (P : Publication → Prop) : Call → Prop
  | .publish topic payload now receipt =>
      ∀ id, (s.publish topic payload now receipt).answer = .ok (.published id) →
        P (.stamped topic now payload)
  | .receive publications _ => ∀ p ∈ publications, P p
  | _ => True

theorem publish_cases (s : Session) (topic : Name) (payload : Bytes) (now : Timestamp)
    (receipt : Option String) :
    (∃ id, (s.publish topic payload now receipt).answer = .ok (.published id)) ∨
      (s.publish topic payload now receipt).session = s := by
  simp only [publish]
  split
  · exact Or.inr rfl
  · split
    · exact Or.inr rfl
    · exact Or.inl ⟨_, rfl⟩

namespace Within

theorem mono {Q : Publication → Prop} (h : s.Within P) (hle : ∀ p, P p → Q p) : s.Within Q :=
  ⟨h.consistent, h.numbered, h.selects, fun id e hfind => hle _ (h.known id e hfind)⟩

theorem of_openWith {config : SessionConfig} {policy : Policy} (hselects : policy.Selects)
    (hopen : openWith config policy = .ok s) : s.Within P := by
  rcases openWith_eq_ok hopen with ⟨-, rfl⟩
  refine ⟨Consistent.fresh config policy, Numbered.fresh config policy, hselects, ?_⟩
  intro id e hfind
  cases hfind

theorem known_perform (h : s.Within P) {call : Call} (hadmits : s.Admits P call) :
    ∀ id e, (s.perform call).session.table.find? id = some e → P e.publication := by
  by_cases hsame : (s.perform call).session = s
  · rw [hsame]
    exact h.known
  · refine entries_perform (Q := fun _ e => P e.publication) h.known ?_ ?_ ?_ ?_
    · intro now _ id e e' hold haged
      rw [Entry.aged_eq_some haged]
      exact hold
    · intro id e hold
      exact hold
    · rintro topic payload now receipt rfl -
      -- A publication that is not built leaves the session as it is.
      rcases s.publish_cases topic payload now receipt with ⟨id, hanswer⟩ | hstays
      · exact hadmits id hanswer
      · exact absurd hstays hsame
    · rintro publications now p rfl - hmem -
      exact hadmits p hmem

theorem perform (h : s.Within P) (call : Call) (hadmits : s.Admits P call) :
    (s.perform call).session.Within P where
  consistent := h.consistent.perform call
  numbered := h.numbered.perform call
  selects := by
    rw [(s.settings_perform call).2.1]
    exact h.selects
  known := h.known_perform hadmits

/-- What is handed to subscriptions was received. -/
theorem delivered (h : s.Within P) {call : Call} (hadmits : s.Admits P call) {token : Nat}
    {p : Publication} (hmem : (token, p) ∈ Event.deliveries (s.perform call).events) : P p := by
  rcases mem_acceptedBy ((deals_perform h.numbered call).mem hmem) with
    ⟨publications, now, rfl, -, htaken⟩
  exact hadmits p (mem_of_mem_taken htaken)

/-- What is sent to a peer was stored. -/
theorem replied (h : s.Within P) {call : Call} {reply : List Publication} {p : Publication}
    (hreply : reply ∈ s.replies call) (hmem : p ∈ reply) : P p := by
  cases call with
  | answerPeer peer now =>
      have hanswer : (s.answerPeer peer now).answer = some reply := by
        simpa [replies] using hreply
      have hafter : (s.answerPeer peer now).session.Within P :=
        h.perform (.answerPeer peer now) trivial
      -- Timers and receipts come first, so the offer is taken from the session they leave.
      rcases candidate_of_selects hafter.selects (mem_offer_of_answer hanswer hmem).2 with
        ⟨e, hcandidate, rfl⟩
      rcases mem_candidates_iff.mp hcandidate with ⟨id, -, -, hfind, -⟩
      exact hafter.known id e hfind
  | publish | subscribe | subscribeUri | receive | advance | close | cancel => cases hreply

end Within

end Session

/-! ## Sessions and mailboxes -/

namespace Hub

theorem mem_assign {α : Type} {key : String} {value : α} {pairs : List (String × α)}
    {pair : String × α} (h : pair ∈ assign key value pairs) : pair = (key, value) ∨ pair ∈ pairs := by
  unfold assign at h
  split at h
  · rcases List.mem_map.mp h with ⟨old, hold, hpair⟩
    split at hpair
    · exact Or.inl hpair.symm
    · exact Or.inr (hpair ▸ hold)
  · rcases List.mem_append.mp h with hold | hnew
    · exact Or.inr hold
    · exact Or.inl (List.mem_singleton.mp hnew)

theorem mem_of_lookup {α : Type} {key : String} {value : α} {pairs : List (String × α)}
    (h : pairs.lookup key = some value) : (key, value) ∈ pairs := by
  rcases List.lookup_eq_some_iff.mp h with ⟨first, last, rfl, -⟩
  simp

/-- Every publication in a table or a queue has the property. -/
structure Within (hub : Hub) (P : Publication → Prop) : Prop where
  sessions : ∀ name s, (name, s) ∈ hub.sessions → s.Within P
  queues : ∀ label box, (label, box) ∈ hub.mailboxes → ∀ p ∈ box.queue, P p

namespace Within

variable {hub : Hub} {name label : String} {s : Session}

theorem mono {Q : Publication → Prop} (h : hub.Within P) (hle : ∀ p, P p → Q p) : hub.Within Q where
  sessions := fun name s hmem => (h.sessions name s hmem).mono hle
  queues := fun label box hmem p hp => hle p (h.queues label box hmem p hp)

theorem session (h : hub.Within P) (hsession : hub.session? name = some s) : s.Within P :=
  h.sessions name s (mem_of_lookup hsession)

theorem mailbox {box : Mailbox} (h : hub.Within P) (hbox : hub.mailbox? label = some box) :
    ∀ p ∈ box.queue, P p :=
  h.queues label box (mem_of_lookup hbox)

theorem setSession (h : hub.Within P) (name : String) (hs : s.Within P) :
    (hub.setSession name s).Within P where
  sessions := by
    intro other t hmem
    rcases mem_assign hmem with hnew | hold
    · cases hnew
      exact hs
    · exact h.sessions other t hold
  queues := h.queues

theorem mapMailboxes (h : hub.Within P) {f : Mailbox → Mailbox}
    (hf : ∀ box, (∀ p ∈ box.queue, P p) → ∀ p ∈ (f box).queue, P p) :
    (hub.mapMailboxes f).Within P where
  sessions := h.sessions
  queues := by
    intro label box hmem
    rcases List.mem_map.mp hmem with ⟨⟨key, old⟩, hold, hpair⟩
    rcases Prod.mk.inj hpair with ⟨-, rfl⟩
    exact hf old (h.queues key old hold)

theorem setMailbox (h : hub.Within P) (label : String) {box : Mailbox}
    (hbox : ∀ p ∈ box.queue, P p) :
    Within { hub with mailboxes := assign label box hub.mailboxes } P where
  sessions := h.sessions
  queues := by
    intro other old hmem
    rcases mem_assign hmem with hnew | hold
    · cases hnew
      exact hbox
    · exact h.queues other old hold

theorem run {α : Type} {call : Session → Step α} (h : hub.Within P) (name : String)
    (hsession : (call s).session.Within P)
    (hdelivered : ∀ token p, (token, p) ∈ Event.deliveries (call s).events → P p) :
    (hub.run name s call).hub.Within P := by
  refine (h.setSession name hsession).mapMailboxes (f := (·.takeAll name (call s).events)) ?_
  intro box hbox p hmem
  rcases Mailbox.mem_queue_takeAll hmem with hold | ⟨token, hnew⟩
  · exact hbox p hold
  · exact hdelivered token p hnew

theorem perform (h : hub.Within P) (hs : s.Within P) (name : String) (call : Call)
    (hadmits : s.Admits P call) : (hub.run name s fun s => s.perform call).hub.Within P :=
  h.run name (hs.perform call hadmits) fun _ _ hmem => hs.delivered hadmits hmem

theorem install (h : hub.Within P) (name : String) (hs : s.Within P) :
    (hub.install name s).Within P := by
  refine (h.mapMailboxes ?_).setSession name hs
  intro box hbox
  unfold Mailbox.detach
  split
  · split
    · exact hbox
    · exact hbox
  · exact hbox

theorem dropMailbox (h : hub.Within P) (label : String) : (hub.dropMailbox label).Within P := by
  unfold Hub.dropMailbox
  split
  · exact h
  · have hless : Within { hub with mailboxes := unassign label hub.mailboxes } P :=
      ⟨h.sessions, fun key old hmem => h.queues key old (List.mem_filter.mp hmem).1⟩
    simp only
    split
    · exact hless
    · -- Its subscription is cancelled, in whatever session it was made.
      rename_i name token _
      split
      · exact hless
      · rename_i t hsession
        exact hless.setSession name ((hless.session hsession).perform (.cancel token) trivial)

theorem attach (h : hub.Within P) (name label : String) (subscription : Subscription) :
    (hub.attach name label subscription).Within P :=
  (h.dropMailbox label).setMailbox label fun _ hmem => absurd hmem List.not_mem_nil

theorem subscribe (h : hub.Within P) (hs : s.Within P) (name : String) (topic : Name)
    (label : String) : (hub.subscribe name s topic label).hub.Within P :=
  (h.perform hs name (.subscribe topic) trivial).attach name label _

theorem subscribeUri (h : hub.Within P) (hs : s.Within P) (name topic label : String) :
    (hub.subscribeUri name s topic label).hub.Within P := by
  have hperform := h.perform hs name (.subscribeUri topic) trivial
  unfold Hub.subscribeUri
  simp only
  split
  · exact hperform
  · exact Within.attach hperform name label _

theorem poll {box : Mailbox} (h : hub.Within P) (hbox : hub.mailbox? label = some box) :
    (hub.poll label box).2.Within P := by
  have hqueue := h.mailbox hbox
  unfold Hub.poll
  split
  · rename_i first rest hsplit
    rw [hsplit] at hqueue
    exact h.setMailbox label fun p hmem => hqueue p (List.mem_cons_of_mem first hmem)
  · exact h

theorem drain (h : hub.Within P) (label : String) (box : Mailbox) :
    (hub.drain label box).2.Within P :=
  h.setMailbox label fun _ hmem => absurd hmem List.not_mem_nil

end Within

end Hub

/-! ## The network -/

namespace Network

variable {n : Network}

/-- Every publication in a table, a queue or an answer on its way has the property. -/
structure Sound (n : Network) (P : Publication → Prop) : Prop where
  hub : n.hub.Within P
  replies : ∀ reply ∈ n.replies, ∀ p ∈ reply, P p

namespace Sound

theorem mono {Q : Publication → Prop} (h : n.Sound P) (hle : ∀ p, P p → Q p) : n.Sound Q :=
  ⟨h.hub.mono hle, fun reply hreply p hmem => hle p (h.replies reply hreply p hmem)⟩

theorem withHub {hub : Hub} (h : n.Sound P) (hhub : hub.Within P) :
    (n.withHub hub).network.Sound P :=
  ⟨hhub, h.replies⟩

theorem perform (h : n.Sound P) {name : String} {call : Call}
    (hadmits : ∀ s, n.hub.session? name = some s → s.Admits P call) :
    (n.perform name call).network.Sound P := by
  unfold Network.perform
  split
  · exact h
  · rename_i s hsession
    have hs : s.Within P := h.hub.session hsession
    refine ⟨h.hub.perform hs name call (hadmits s hsession), ?_⟩
    intro reply hreply p hmem
    rcases List.mem_append.mp hreply with hold | hnew
    · exact h.replies reply hold p hmem
    · exact hs.replied hnew hmem

/-- An action brings in only what it builds: everything else comes from a table or an answer. -/
theorem act (h : n.Sound P) (action : Action) (hbuilds : ∀ p, n.Builds action p → P p) :
    (n.act action).network.Sound P := by
  cases action with
  | join name config policy selects =>
      simp only [Network.act]
      split
      · rename_i s _ hopen
        exact h.withHub (h.hub.install name (.of_openWith selects hopen))
      · exact h.withHub h.hub
  | publish name topic payload now receipt =>
      refine h.perform fun s hsession id hanswer => ?_
      exact hbuilds _ ⟨name, topic, payload, now, receipt, s, id, rfl, hsession, hanswer, rfl⟩
  | advance name now => exact h.perform fun _ _ => trivial
  | close name => exact h.perform fun _ _ => trivial
  | subscribe name topic label =>
      refine h.withHub ?_
      cases hsession : n.hub.session? name with
      | none => exact h.hub
      | some s => exact h.hub.subscribe (h.hub.session hsession) name topic label
  | subscribeUri name topic label =>
      refine h.withHub ?_
      cases hsession : n.hub.session? name with
      | none => exact h.hub
      | some s => exact h.hub.subscribeUri (h.hub.session hsession) name topic label
  | unsubscribe label => exact h.withHub (h.hub.dropMailbox label)
  | poll label =>
      refine h.withHub ?_
      cases hbox : n.hub.mailbox? label with
      | none => exact h.hub
      | some box => exact h.hub.poll hbox
  | drain label =>
      refine h.withHub ?_
      cases n.hub.mailbox? label with
      | none => exact h.hub
      | some box => exact h.hub.drain label box
  | announce name => exact ⟨h.hub, h.replies⟩
  | answer name message now =>
      simp only [Network.act]
      split
      · exact h
      · split
        · exact h
        · exact h.perform fun _ _ => trivial
  | ingest name message now =>
      simp only [Network.act]
      split
      · exact h
      · rename_i reply hreply
        exact h.perform fun _ _ => h.replies reply (List.mem_of_getElem? hreply)

end Sound

/-- By induction on the last action: what was made before it, or by it, is made. -/
theorem sound_after (actions : List Action) : (empty.after actions).Sound (Made actions) := by
  induction actions using List.reverseRecOn with
  | nil =>
      refine ⟨⟨?_, ?_⟩, ?_⟩
      · intro name s hmem
        cases hmem
      · intro label box hmem
        cases hmem
      · intro reply hmem
        cases hmem
  | append_singleton rest action ih =>
      rw [after_append]
      refine (ih.mono fun p hmade => hmade.append [action]).act action ?_
      intro p hbuilds
      exact ⟨rest, action, [], rfl, hbuilds⟩

end Network

/-! ## Receipts -/

namespace Session

variable {s : Session} {label : String} {p : Publication}

/-- The timers confirm nothing. -/
theorem not_confirmed_by_advance (s : Session) (now : Timestamp) (label : String)
    (p : Publication) : (label, p, true) ∉ Event.given (s.advance now).events := by
  rw [given_advance]
  intro hmem
  rcases List.mem_map.mp hmem with ⟨r, -, hlost⟩
  cases hlost

/-- A receipt is given when a summary is answered, for an id of that summary. -/
theorem Consistent.confirmed_by_peer (h : s.Consistent) {call : Call}
    (hmem : Event.receipt label p true ∈ (s.perform call).events) :
    ∃ peer now, call = .answerPeer peer now ∧ p.id ∈ peer.ids := by
  have hgiven := Event.mem_given_iff.mpr hmem
  by_cases hadvance : ∃ now, call = .advance now
  · rcases hadvance with ⟨now, rfl⟩
    exact absurd hgiven (s.not_confirmed_by_advance now label p)
  by_cases hanswer : ∃ peer now, call = .answerPeer peer now
  · rcases hanswer with ⟨peer, now, rfl⟩
    refine ⟨peer, now, rfl, ?_⟩
    cases hclosed : s.closed with
    | true => simp [Session.perform, Step.discard, answerPeer, hclosed] at hmem
    | false =>
        rw [Session.perform, Step.discard, given_answerPeer hclosed] at hgiven
        rcases List.mem_append.mp hgiven with htimers | hpeer
        · exact absurd htimers (s.not_confirmed_by_advance now label p)
        · rw [given_confirm] at hpeer
          rcases List.mem_map.mp hpeer with ⟨r, howed, hsame⟩
          cases hsame
          rcases mem_owedWhere_iff.mp howed with ⟨id, e, hfind, hconfirmed, -, hpublication⟩
          have hkeyed : e.publication.id = id := (h.perform (.advance now)).keyed id e hfind
          simp only [Entry.isConfirmedBy, Bool.and_eq_true] at hconfirmed
          rw [← hpublication, hkeyed]
          exact Summary.contains_iff.mp hconfirmed.2
  · have hnone := s.given_perform_eq_nil (fun now hsame => hadvance ⟨now, hsame⟩)
      (fun peer now hsame => hanswer ⟨peer, now, hsame⟩)
    rw [hnone] at hgiven
    cases hgiven

end Session

namespace Network

variable {n : Network}

theorem confirmed_of_perform (h : n.hub.Within P) {actor name label : String} {call : Call}
    {p : Publication} (hmem : (name, Event.receipt label p true) ∈ (n.perform actor call).events) :
    actor = name ∧ ∃ peer now, call = .answerPeer peer now ∧ p.id ∈ peer.ids := by
  unfold perform at hmem
  split at hmem
  · cases hmem
  · rename_i s hsession
    rcases List.mem_map.mp hmem with ⟨event, hevent, hpair⟩
    cases hpair
    exact ⟨rfl, (h.session hsession).consistent.confirmed_by_peer hevent⟩

/-- A receipt comes with the answer to a summary that another session sent. -/
theorem answered_of_receipt (h : n.hub.Within P) {action : Action} {name label : String}
    {p : Publication} (hmem : (name, Event.receipt label p true) ∈ (n.act action).events) :
    ∃ message now sender summary, action = .answer name message now ∧
      n.summaries[message]? = some (sender, summary) ∧ sender ≠ name ∧ p.id ∈ summary.ids := by
  rcases n.act_cases action with
    ⟨actor, call, hrequests, hact⟩ | ⟨actor, s, -, -, hact⟩ | ⟨hub, hact⟩
  · rw [hact] at hmem
    rcases confirmed_of_perform h hmem with ⟨rfl, peer, now, rfl, hid⟩
    -- Only an answer makes a session see a summary.
    cases hrequests with
    | answer hsummary hother => exact ⟨_, _, _, _, rfl, hsummary, hother, hid⟩
  · rw [hact] at hmem
    cases hmem
  · rw [hact] at hmem
    cases hmem

/-! ## Every schedule -/

/-- Nothing is made up, and no receipt lies, whatever happens to the messages.

After any schedule, every publication in a table, in an answer on its way and in a queue is one that
a session built when it published. A receipt is given only in the answer to a summary of another
session, and at the moment that summary was sent its sender had an active entry under that id. -/
theorem provenance (actions : List Action) :
    let n := empty.after actions
    (∀ name s, (name, s) ∈ n.hub.sessions →
      ∀ id e, s.table.find? id = some e → Made actions e.publication) ∧
    (∀ reply ∈ n.replies, ∀ p ∈ reply, Made actions p) ∧
    (∀ label box, (label, box) ∈ n.hub.mailboxes → ∀ p ∈ box.queue, Made actions p) ∧
    ∀ action name label p, (name, Event.receipt label p true) ∈ (n.act action).events →
      ∃ message now sender early middle t e, action = .answer name message now ∧ sender ≠ name ∧
        actions = early ++ .announce sender :: middle ∧
        (empty.after early).summaries.length = message ∧
        n.summaries[message]? = some (sender, t.summary) ∧
        (empty.after early).hub.session? sender = some t ∧
        t.table.find? p.id = some e ∧ e.active = true := by
  intro n
  have hsound : n.Sound (Made actions) := sound_after actions
  refine ⟨?_, hsound.replies, hsound.hub.queues, ?_⟩
  · intro name s hmem
    exact (hsound.hub.sessions name s hmem).known
  · intro action name label p hmem
    rcases answered_of_receipt hsound.hub hmem with
      ⟨message, now, sender, summary, haction, hsummary, hother, hid⟩
    rcases announced_of_summaries hsummary with
      ⟨early, middle, t, hsplit, hnumber, hsession, rfl⟩
    -- The sender was in order when it sent the summary: what it lists is active.
    have hconsistent : t.Consistent := ((sound_after early).hub.session hsession).consistent
    rcases (hconsistent.offered p.id).mp hid with ⟨e, hfind, hactive⟩
    exact ⟨message, now, sender, early, middle, t, e, haction, hother, hsplit, hnumber, hsummary,
      hsession, hfind, hactive⟩

/-- A publication travels to a second session, which confirms it by its next summary. -/
theorem provenance_confirmed :
    let join (name : String) := Action.join name {} (.lifecycle {}) (Policy.selects_lifecycle {})
    let p := Publication.stamped .root .zero []
    let actions : List Action :=
      [join "a", join "b", .publish "a" .root [] .zero (some "first"), .announce "b",
        .answer "a" 0 .zero, .ingest "b" 0 .zero, .announce "b"]
    let n := empty.after actions
    n.replies = [[p]] ∧ Made actions p ∧
      ("a", Event.receipt "first" p true) ∈ (n.act (.answer "a" 1 .zero)).events ∧
      ∃ sender early middle t e, sender ≠ "a" ∧ actions = early ++ .announce sender :: middle ∧
        (empty.after early).hub.session? sender = some t ∧
        t.table.find? p.id = some e ∧ e.active = true := by
  intro join p actions n
  have hreplies : n.replies = [[p]] := by decide +kernel
  have hreceipt : ("a", Event.receipt "first" p true) ∈ (n.act (.answer "a" 1 .zero)).events := by
    decide +kernel
  rcases provenance actions with ⟨-, hsent, -, hconfirmed⟩
  have hmem : [p] ∈ n.replies := hreplies ▸ List.mem_singleton_self [p]
  refine ⟨hreplies, hsent [p] hmem p (List.mem_singleton_self p), hreceipt, ?_⟩
  rcases hconfirmed _ "a" "first" p hreceipt with
    ⟨-, -, sender, early, middle, t, e, -, hother, hsplit, -, -, hsession, hfind, hactive⟩
  exact ⟨sender, early, middle, t, e, hother, hsplit, hsession, hfind, hactive⟩

end Network

end Bulletin
