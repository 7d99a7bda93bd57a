import Bulletin.Hub
import Bulletin.Proofs.Delivery
import Bulletin.Proofs.Invariant

/-!
# Roster — who receives what

A session keeps cancelled subscriptions until a delivery finds them, and picks recipients by the length
of their topics. The application knows nothing of this: it knows which subscriptions it made, dropped
or ended. This file compares the two:

* `Roster` — the subscriptions that stand, as the calls alone tell;
* `Roster.Serves`, `Roster.recipients` — who should receive a publication;
* `Session.Lists` — an open session has the subscriptions of the roster;
* `Session.acceptances` — what a run accepts, with the roster of that moment;
* `Session.subscriptions_exact` — the queue of a subscription, and the counts of a report.
-/

namespace Bulletin

def Call.topic? : Call → Option Name
  | subscribe topic => some topic
  | subscribeUri text => (Name.ofUri text).toOption
  | _ => none

/-- The call drops the subscription of that token, or closes the session. -/
def Call.Ends (token : Nat) (call : Call) : Prop :=
  call = .close ∨ call = .cancel token

instance (token : Nat) (call : Call) : Decidable (call.Ends token) :=
  inferInstanceAs (Decidable (_ ∨ _))

/-- The subscriptions of a session as its application knows them: how many were made, and which of
them were neither dropped nor ended by closing, oldest first. -/
structure Roster where
  made : Nat
  standing : List Subscription

namespace Roster

def empty : Roster := ⟨0, []⟩

def step (r : Roster) : Call → Roster
  | .close => { r with standing := [] }
  | .cancel token => { r with standing := r.standing.filter (·.token ≠ token) }
  | call =>
      match call.topic? with
      | some topic => ⟨r.made + 1, r.standing ++ [⟨r.made, topic, true⟩]⟩
      | none => r

def after (r : Roster) (calls : List Call) : Roster :=
  calls.foldl step r

/-- The topic covers the name, and no standing subscription that covers it has a longer topic. -/
def Serves (r : Roster) (topic name : Name) : Prop :=
  topic.covers name = true ∧
    ∀ other ∈ r.standing, other.topic.covers name = true → other.topic.length ≤ topic.length

instance (r : Roster) (topic name : Name) : Decidable (r.Serves topic name) :=
  inferInstanceAs (Decidable (_ ∧ _))

def recipients (r : Roster) (name : Name) : List Subscription :=
  r.standing.filter fun x => r.Serves x.topic name

def verdict (r : Roster) (name : Name) : Verdict :=
  if r.recipients name = [] then .unclaimed else .delivered

def under (r : Roster) (token : Nat) : List Subscription :=
  r.standing.filter (·.token = token)

variable {r : Roster} {token : Nat} {topic name : Name}

/-! ## Recipients -/

/-- All recipients have the same topic: two topics that cover a name differ in length or not at
all. -/
theorem topic_eq_of_recipients {x y : Subscription} (hx : x ∈ r.recipients name)
    (hy : y ∈ r.recipients name) : x.topic = y.topic := by
  rcases List.mem_filter.mp hx with ⟨hxmem, hxserves⟩
  rcases List.mem_filter.mp hy with ⟨hymem, hyserves⟩
  rcases of_decide_eq_true hxserves with ⟨hxcovers, hxlongest⟩
  rcases of_decide_eq_true hyserves with ⟨hycovers, hylongest⟩
  have hlength : x.topic.length = y.topic.length :=
    Nat.le_antisymm (hylongest x hxmem hxcovers) (hxlongest y hymem hycovers)
  -- Of two beginnings of one name the shorter is a beginning of the longer.
  have hprefix : x.topic.components <+: y.topic.components :=
    List.prefix_of_prefix_length_le (List.isPrefixOf_iff_prefix.mp hxcovers)
      (List.isPrefixOf_iff_prefix.mp hycovers) (Nat.le_of_eq hlength)
  have hsame : x.topic.components = y.topic.components := hprefix.eq_of_length hlength
  exact congrArg Name.mk hsame

theorem longest?_eq_some_iff {candidates : List Subscription} {x : Subscription}
    (hmem : x ∈ candidates) :
    Subscription.longest? candidates = some x.topic.length ↔
      ∀ other ∈ candidates, other.topic.length ≤ x.topic.length := by
  rw [Subscription.longest?, List.max?_eq_some_iff]
  constructor
  · rintro ⟨-, hall⟩ other hother
    exact hall _ (List.mem_map.mpr ⟨other, hother, rfl⟩)
  · intro hall
    refine ⟨List.mem_map.mpr ⟨x, hmem, rfl⟩, ?_⟩
    intro length hlength
    rcases List.mem_map.mp hlength with ⟨other, hother, rfl⟩
    exact hall other hother

/-- Taking the longest of the covering topics finds the recipients. -/
theorem recipients_eq (r : Roster) (name : Name) :
    Subscription.recipients r.standing name = r.recipients name := by
  unfold Subscription.recipients Subscription.covering recipients
  rw [List.filter_filter]
  refine List.filter_congr fun x hmem => ?_
  -- The longest of the covering topics is as long as this one, or no covering topic is longer.
  rw [Bool.eq_iff_iff, Bool.and_eq_true, decide_eq_true_iff, decide_eq_true_iff]
  constructor
  · rintro ⟨hlongest, hcovers⟩
    refine ⟨hcovers, fun other hother hcovered => ?_⟩
    exact (longest?_eq_some_iff (List.mem_filter.mpr ⟨hmem, hcovers⟩)).mp hlongest other
      (List.mem_filter.mpr ⟨hother, hcovered⟩)
  · rintro ⟨hcovers, hlongest⟩
    refine ⟨(longest?_eq_some_iff (List.mem_filter.mpr ⟨hmem, hcovers⟩)).mpr ?_, hcovers⟩
    intro other hother
    rcases List.mem_filter.mp hother with ⟨hstands, hcovered⟩
    exact hlongest other hstands hcovered

/-! ## One token -/

theorem below_step (h : ∀ x ∈ r.standing, x.token < r.made) (call : Call) :
    ∀ x ∈ (r.step call).standing, x.token < (r.step call).made := by
  unfold step
  split
  · exact fun x hmem => absurd hmem List.not_mem_nil
  · exact fun x hmem => h x (List.mem_filter.mp hmem).1
  · split
    · intro x hmem
      rcases List.mem_append.mp hmem with hold | hnew
      · exact Nat.lt_succ_of_lt (h x hold)
      · rw [List.mem_singleton.mp hnew]
        exact Nat.lt_succ_self r.made
    · exact h

theorem below_after (h : ∀ x ∈ r.standing, x.token < r.made) (calls : List Call) :
    ∀ x ∈ (r.after calls).standing, x.token < (r.after calls).made := by
  induction calls generalizing r with
  | nil => exact h
  | cons call rest ih => exact ih (below_step h call)

theorem made_le_step (r : Roster) (call : Call) : r.made ≤ (r.step call).made := by
  unfold step
  split
  · exact Nat.le_refl _
  · exact Nat.le_refl _
  · split
    · exact Nat.le_succ r.made
    · exact Nat.le_refl _

/-- A subscription that is dropped, or whose session is closed, stands no longer. -/
theorem under_step_of_ends {call : Call} (hends : call.Ends token) :
    (r.step call).under token = [] := by
  rcases hends with rfl | rfl
  · rfl
  · refine List.filter_eq_nil_iff.mpr fun x hmem => ?_
    simpa using (List.mem_filter.mp hmem).2

/-- Until then nothing changes under its token, which later subscriptions do not take again. -/
theorem under_step_of_not_ends (hmade : token < r.made) {call : Call} (hends : ¬ call.Ends token) :
    (r.step call).under token = r.under token := by
  unfold step
  split
  · exact absurd (.inl rfl) hends
  · rename_i dropped
    have hother : dropped ≠ token := fun hsame => hends (.inr (hsame ▸ rfl))
    refine List.filter_filter.trans (List.filter_congr fun x _ => ?_)
    by_cases htoken : x.token = token
    · simp [htoken, hother.symm]
    · simp [htoken]
  · split
    · have hnew : r.made ≠ token := Nat.ne_of_gt hmade
      simp [under, List.filter_append, hnew]
    · rfl

/-- The token of a new subscription was never used. -/
theorem under_step_new (h : ∀ x ∈ r.standing, x.token < r.made) {call : Call}
    (hmakes : call.topic? = some topic) :
    (r.step call).under r.made = [⟨r.made, topic, true⟩] ∧ r.made < (r.step call).made := by
  have hold : r.standing.filter (·.token = r.made) = [] := by
    refine List.filter_eq_nil_iff.mpr fun x hmem => ?_
    have hbelow := h x hmem
    simpa using Nat.ne_of_lt hbelow
  have hstep : r.step call = ⟨r.made + 1, r.standing ++ [⟨r.made, topic, true⟩]⟩ := by
    unfold step
    split
    · cases hmakes
    · cases hmakes
    · rw [hmakes]
  rw [hstep]
  exact ⟨by simp [under, List.filter_append, hold], Nat.lt_succ_self r.made⟩

end Roster

/-! ## The subscriptions of a session -/

namespace Session

variable {s : Session} {r : Roster} {token : Nat}

/-- The session numbers its subscriptions as the roster does, and while it is open its live ones are
those that stand. -/
structure Lists (s : Session) (r : Roster) : Prop where
  next : s.nextToken = r.made
  live : s.closed = false → s.subscriptions.filter (·.live) = r.standing

theorem live_cancel (s : Session) (token : Nat) :
    (s.cancel token).subscriptions.filter (·.live) =
      (s.subscriptions.filter (·.live)).filter (·.token ≠ token) := by
  unfold cancel
  induction s.subscriptions with
  | nil => rfl
  | cons x rest ih =>
      by_cases htoken : x.token = token
      · cases hlive : x.live with
        | false => simpa [htoken, hlive] using ih
        | true => simpa [htoken, hlive] using ih
      · cases hlive : x.live with
        | false => simpa [htoken, hlive] using ih
        | true => simpa [htoken, hlive] using ih

theorem live_receiveOne (s : Session) (p : Publication) (now : Timestamp) :
    (s.receiveOne p now).session.subscriptions.filter (·.live) =
      s.subscriptions.filter (·.live) := by
  rcases s.session_receiveOne p now with hsame | hstored
  · rw [hsame]
  · -- What is pruned here was cancelled before.
    rw [hstored]
    exact List.filter_filter.trans (List.filter_congr fun x _ => Bool.and_self x.live)

namespace Lists

theorem fresh (config : SessionConfig) (policy : Policy) :
    (Session.fresh config policy).Lists .empty :=
  ⟨rfl, fun _ => rfl⟩

theorem subscribe (h : s.Lists r) (topic : Name) :
    (s.subscribe topic).session.Lists ⟨r.made + 1, r.standing ++ [⟨r.made, topic, true⟩]⟩ where
  next := congrArg (· + 1) h.next
  live := by
    intro hopen
    simp only [Session.subscribe, List.filter_append, h.live hopen, h.next]
    rfl

theorem receiveOne (h : s.Lists r) (p : Publication) (now : Timestamp) :
    (s.receiveOne p now).session.Lists r where
  next := (s.subscriptions_receiveOne p now).2.trans h.next
  live := by
    intro hopen
    rw [(s.settings_receiveOne p now).2.2] at hopen
    exact (s.live_receiveOne p now).trans (h.live hopen)

theorem perform (h : s.Lists r) (call : Call) : (s.perform call).session.Lists (r.step call) := by
  cases call with
  | publish name payload now receipt =>
      simp only [Session.perform, publish, Step.discard]
      split
      · exact h
      · split
        · exact h
        · exact ⟨h.next, h.live⟩
  | subscribe topic => exact h.subscribe topic
  | subscribeUri text =>
      simp only [Session.perform, subscribeUri, Step.discard, Roster.step, Call.topic?]
      cases Name.ofUri text with
      | error e => exact h
      | ok topic => exact h.subscribe topic
  | receive publications now =>
      simp only [Session.perform, receive, Step.discard]
      split
      · exact h
      · exact receiveEach_induction (P := fun t => t.Lists r)
          (fun _ p ht => ht.receiveOne p now) h publications
  | answerPeer peer now =>
      cases hclosed : s.closed with
      | true =>
          simp only [Session.perform, Step.discard, answerPeer, hclosed, if_true]
          exact h
      | false =>
          simp only [Session.perform, Step.discard, session_answerPeer hclosed peer now]
          exact ⟨h.next, h.live⟩
  | advance now => exact ⟨h.next, h.live⟩
  | close =>
      simp only [Session.perform, close]
      split
      · rename_i hclosed
        -- Closing again changes nothing, and a closed session is not compared.
        exact ⟨h.next, fun (hopen : s.closed = false) => absurd hclosed (by simp [hopen])⟩
      · exact ⟨h.next, fun hopen => absurd hopen (by simp)⟩
  | cancel token =>
      -- The session marks the subscription and keeps it; the roster forgets it.
      refine ⟨h.next, fun hopen => ?_⟩
      exact (s.live_cancel token).trans (congrArg _ (h.live hopen))

theorem after (h : s.Lists r) (calls : List Call) : (s.after calls).Lists (r.after calls) := by
  induction calls generalizing s r with
  | nil => exact h
  | cons call rest ih => exact ih (h.perform call)

end Lists

/-! ## Deliveries -/

/-- An accepted publication goes to its recipients, and every other one to nobody. -/
theorem Lists.deliveries_receiveOne (h : s.Lists r) (hopen : s.closed = false) (p : Publication)
    (now : Timestamp) :
    Event.deliveries (s.receiveOne p now).events =
      (if (s.receiveOne p now).answer.stores then [p] else []).flatMap fun p =>
        (r.recipients p.name).map fun x => (x.token, p) := by
  cases hstores : (s.receiveOne p now).answer.stores with
  | false => exact deliveries_receiveOne_eq_nil hstores
  | true =>
      rw [Session.deliveries_receiveOne hstores, h.live hopen, Roster.recipients_eq]
      simp

theorem Lists.deliveries_receiveEach (h : s.Lists r) (hopen : s.closed = false)
    (publications : List Publication) (now : Timestamp) :
    Event.deliveries (s.receiveEach publications now).events =
      (s.taken publications now).flatMap fun p =>
        (r.recipients p.name).map fun x => (x.token, p) := by
  induction publications generalizing s with
  | nil => rfl
  | cons p rest ih =>
      have hstill : (s.receiveOne p now).session.closed = false :=
        (s.settings_receiveOne p now).2.2.trans hopen
      rw [taken_cons, List.flatMap_append, ← ih (h.receiveOne p now) hstill,
        ← h.deliveries_receiveOne hopen]
      exact Event.deliveries_append _ _

theorem Lists.deliveries_perform (h : s.Lists r) (call : Call) :
    Event.deliveries (s.perform call).events =
      (s.acceptedBy call).flatMap fun p => (r.recipients p.name).map fun x => (x.token, p) := by
  by_cases hreceive : ∃ publications now, call = .receive publications now
  · rcases hreceive with ⟨publications, now, rfl⟩
    cases hclosed : s.closed with
    | true =>
        simp only [acceptedBy, Session.perform, receive, Step.discard, hclosed, if_true]
        rfl
    | false =>
        simpa [acceptedBy, Session.perform, receive, Step.discard, hclosed] using
          h.deliveries_receiveEach hclosed publications now
  · rcases s.quiet_perform hreceive with ⟨hnone, hnothing⟩
    rw [hnone, hnothing]
    rfl

/-! ## Verdicts -/

/-- A stored publication counts as delivered if somebody receives it. -/
theorem Lists.answer_receiveOne (h : s.Lists r) (hopen : s.closed = false) {p : Publication}
    {now : Timestamp} (hstores : (s.receiveOne p now).answer.stores = true) :
    (s.receiveOne p now).answer = r.verdict p.name := by
  rcases stores_receiveOne.mp hstores with ⟨hnew, hvalid⟩
  have hknown : s.table.contains p.id = false := Table.contains_eq_false_iff.mpr hnew
  have hrecipients : Subscription.recipients (s.subscriptions.filter (·.live)) p.name =
      r.recipients p.name := by
    rw [h.live hopen, Roster.recipients_eq]
  simp only [Session.receiveOne, hknown, hvalid, accept, deliver, purge, store, hrecipients,
    Roster.verdict, Bool.false_eq_true, if_false, if_true]
  cases r.recipients p.name with
  | nil => rfl
  | cons x rest => simp

theorem Lists.verdicts_receiveEach (h : s.Lists r) (hopen : s.closed = false)
    (publications : List Publication) (now : Timestamp) :
    (s.receiveEach publications now).answer.filter Verdict.stores =
      (s.taken publications now).map fun p => r.verdict p.name := by
  induction publications generalizing s with
  | nil => rfl
  | cons p rest ih =>
      have hstill : (s.receiveOne p now).session.closed = false :=
        (s.settings_receiveOne p now).2.2.trans hopen
      have hrest := ih (h.receiveOne p now) hstill
      rw [taken_cons, List.map_append, ← hrest]
      simp only [receiveEach, List.filter_cons]
      cases hstores : (s.receiveOne p now).answer.stores with
      | false => rfl
      | true => simp [h.answer_receiveOne hopen hstores]

end Session

namespace ReceiveReport

theorem foldl_count (verdicts : List Verdict) (report : ReceiveReport) :
    verdicts.foldl count report =
      ⟨report.delivered + verdicts.count .delivered, report.unclaimed + verdicts.count .unclaimed,
        report.known + verdicts.count .known, report.refused + verdicts.count .refused⟩ := by
  induction verdicts generalizing report with
  | nil => rfl
  | cons verdict rest ih =>
      rw [List.foldl_cons, ih]
      cases verdict with
      | delivered | unclaimed | known | refused =>
          simp only [count, List.count_cons_self, List.count_cons_of_ne, ne_eq, reduceCtorEq,
            not_false_eq_true, mk.injEq, true_and, and_true]
          omega

/-- A report has the number of verdicts of each kind. -/
theorem ofVerdicts_eq (verdicts : List Verdict) :
    ofVerdicts verdicts =
      ⟨verdicts.count .delivered, verdicts.count .unclaimed, verdicts.count .known,
        verdicts.count .refused⟩ := by
  simpa [ofVerdicts] using foldl_count verdicts {}

/-- Only stored publications count as delivered or unclaimed. -/
theorem counts_ofVerdicts (verdicts : List Verdict) :
    (ofVerdicts verdicts).delivered = (verdicts.filter Verdict.stores).count .delivered ∧
      (ofVerdicts verdicts).unclaimed = (verdicts.filter Verdict.stores).count .unclaimed := by
  rw [List.count_filter (by rfl), List.count_filter (by rfl), ofVerdicts_eq]
  exact ⟨rfl, rfl⟩

end ReceiveReport

/-- Of the stored publications those with a recipient count as delivered, the others as unclaimed. -/
theorem Roster.count_verdicts (r : Roster) (publications : List Publication) :
    (publications.map fun p => r.verdict p.name).count .delivered =
        publications.countP (fun p => r.recipients p.name ≠ []) ∧
      (publications.map fun p => r.verdict p.name).count .unclaimed =
        publications.countP (fun p => r.recipients p.name = []) := by
  induction publications with
  | nil => exact ⟨rfl, rfl⟩
  | cons p rest ih =>
      by_cases hnobody : r.recipients p.name = []
      · have hverdict : r.verdict p.name = .unclaimed := if_pos hnobody
        simpa [hverdict, hnobody] using ih
      · have hverdict : r.verdict p.name = .delivered := if_neg hnobody
        simpa [hverdict, hnobody] using ih

/-- The report of an open session counts what it accepts by its recipients. -/
theorem Session.Lists.report_receive {s : Session} {r : Roster} (h : s.Lists r)
    (hopen : s.closed = false) (publications : List Publication) (now : Timestamp) :
    ∃ report, (s.receive publications now).answer = .ok report ∧
      report.delivered = (s.taken publications now).countP (fun p => r.recipients p.name ≠ []) ∧
      report.unclaimed = (s.taken publications now).countP (fun p => r.recipients p.name = []) := by
  let verdicts := (s.receiveEach publications now).answer
  have hanswer : (s.receive publications now).answer = .ok (.ofVerdicts verdicts) := by
    simp [receive, hopen, verdicts]
  have hstored : verdicts.filter Verdict.stores =
      (s.taken publications now).map fun p => r.verdict p.name :=
    h.verdicts_receiveEach hopen publications now
  rcases ReceiveReport.counts_ofVerdicts verdicts with ⟨hdelivered, hunclaimed⟩
  rw [hstored] at hdelivered hunclaimed
  rcases r.count_verdicts (s.taken publications now) with ⟨hsome, hnone⟩
  exact ⟨_, hanswer, hdelivered.trans hsome, hunclaimed.trans hnone⟩

/-! ## Queues -/

/-- What one subscription receives, in order. -/
def Event.inbox (token : Nat) (events : List Event) : List Publication :=
  ((deliveries events).filter (·.1 = token)).map Prod.snd

theorem Event.inbox_append (token : Nat) (first second : List Event) :
    inbox token (first ++ second) = inbox token first ++ inbox token second := by
  rw [inbox, deliveries_append, List.filter_append, List.map_append]
  rfl

/-- A mailbox queues what its subscription receives, in order. -/
theorem Mailbox.queue_takeAll {box : Mailbox} {label : String} {token : Nat}
    (hsource : box.source = some (label, token)) (events : List Event) :
    (box.takeAll label events).queue = box.queue ++ Event.inbox token events := by
  have hsame : (fun d : Nat × Publication => decide (box.source = some (label, d.1))) =
      fun d => decide (d.1 = token) := by
    funext d
    simp [hsource, eq_comm]
  rw [takeAll_eq, hsame, Event.inbox]

/-- What the subscription of a token gets of an accepted publication. -/
def Roster.share (r : Roster) (token : Nat) (p : Publication) : List Publication :=
  ((r.under token).filter fun x => r.Serves x.topic p.name).map fun _ => p

namespace Session

variable {s : Session} {r : Roster} {token : Nat} {topic : Name}

/-- What a run accepts, in order, each with the roster of that moment. -/
def acceptances (s : Session) (r : Roster) : List Call → List (Publication × Roster)
  | [] => []
  | call :: rest =>
      (s.acceptedBy call).map (fun p => (p, r)) ++
        (s.perform call).session.acceptances (r.step call) rest

theorem Lists.inbox_perform (h : s.Lists r) (token : Nat) (call : Call) :
    Event.inbox token (s.perform call).events = (s.acceptedBy call).flatMap (r.share token) := by
  rw [Event.inbox, h.deliveries_perform]
  induction s.acceptedBy call with
  | nil => rfl
  | cons p rest ih =>
      -- Who has the token is asked of the recipients here, and first of all in a share.
      have hone : (((r.recipients p.name).map fun x => (x.token, p)).filter (·.1 = token)).map
          Prod.snd = r.share token p := by
        rw [List.filter_map, List.map_map, Roster.recipients, List.filter_filter, Roster.share,
          Roster.under, List.filter_filter]
        simp only [Function.comp_def, Bool.and_comm]
      rw [List.flatMap_cons, List.filter_append, List.map_append, hone, ih, List.flatMap_cons]

theorem Lists.inbox_history (h : s.Lists r) (token : Nat) (calls : List Call) :
    Event.inbox token (s.history calls) =
      (s.acceptances r calls).flatMap fun m => m.2.share token m.1 := by
  induction calls generalizing s r with
  | nil => rfl
  | cons call rest ih =>
      rw [history_cons, Event.inbox_append, h.inbox_perform, ih (h.perform call), acceptances,
        List.flatMap_append, List.flatMap_map]

/-- Once a subscription is gone it gets nothing. -/
theorem share_eq_nil_of_gone (hgone : r.under token = []) (hmade : token < r.made)
    (calls : List Call) (s : Session) :
    ((s.acceptances r calls).flatMap fun m => m.2.share token m.1) = [] := by
  induction calls generalizing s r with
  | nil => rfl
  | cons call rest ih =>
      have hstill : (r.step call).under token = [] := by
        by_cases hends : call.Ends token
        · exact Roster.under_step_of_ends hends
        · exact (Roster.under_step_of_not_ends hmade hends).trans hgone
      have hlater : token < (r.step call).made := Nat.lt_of_lt_of_le hmade (r.made_le_step call)
      rw [acceptances, List.flatMap_append, ih hstill hlater, List.append_nil, List.flatMap_map]
      exact List.flatMap_eq_nil_iff.mpr fun p _ => by simp [Roster.share, hgone]

/-- While it stands it gets what its topic serves. -/
theorem share_of_standing (hstands : r.under token = [⟨token, topic, true⟩])
    (hmade : token < r.made) (calls : List Call) (s : Session) :
    ((s.acceptances r calls).flatMap fun m => m.2.share token m.1) =
      ((s.acceptances r (calls.takeWhile fun call => ¬ call.Ends token)).filter fun m =>
        m.2.Serves topic m.1.name).map Prod.fst := by
  induction calls generalizing s r with
  | nil => rfl
  | cons call rest ih =>
      have hlater : token < (r.step call).made := Nat.lt_of_lt_of_le hmade (r.made_le_step call)
      rw [acceptances, List.flatMap_append, List.flatMap_map]
      by_cases hends : call.Ends token
      · -- The call that ends it accepts nothing, and nothing comes after it.
        have hnothing : s.acceptedBy call = [] := by
          rcases hends with rfl | rfl
          · rfl
          · rfl
        rw [List.takeWhile_cons_of_neg (by simpa using hends), hnothing,
          share_eq_nil_of_gone (Roster.under_step_of_ends hends) hlater]
        rfl
      · have hstill := (Roster.under_step_of_not_ends hmade hends).trans hstands
        rw [List.takeWhile_cons_of_pos (by simpa using hends), acceptances, List.filter_append,
          List.map_append, ← ih hstill hlater, List.filter_map, List.map_map]
        congr 1
        induction s.acceptedBy call with
        | nil => rfl
        | cons p rest ih =>
            rw [List.flatMap_cons, ih]
            by_cases hserves : r.Serves topic p.name
            · simp [Roster.share, hstands, hserves]
            · simp [Roster.share, hstands, hserves]

/-! ## The queue and the report -/

/-- Every subscription queues exactly what it should, and every report counts exactly that.

A subscription may be made at any point of a run. Its mailbox queues, in order, what the session
accepts from then on until the subscription is dropped or the session closed, as far as the topic
serves the name: it covers it, and no subscription that stands at that moment covers it with a longer
topic. A publication that is accepted goes to subscriptions of one topic, and is counted as delivered
or unclaimed by whether there are any. -/
theorem subscriptions_exact (config : SessionConfig) (policy : Policy) (s : Session)
    (hopen : openWith config policy = .ok s) (before : List Call) :
    let board := s.after before
    let roster := Roster.empty.after before
    (∀ (call : Call) (topic : Name) (later : List Call) (label : String),
      call.topic? = some topic →
        let subscription := (board.subscribe topic).answer
        let box : Mailbox := ⟨some (label, subscription.token), subscription.topic, []⟩
        let start := (board.perform call).session
        let span := later.takeWhile fun call => ¬ call.Ends subscription.token
        (box.takeAll label (start.history later)).queue =
          ((start.acceptances (roster.step call) span).filter fun m =>
            m.2.Serves topic m.1.name).map Prod.fst) ∧
      ∀ (publications : List Publication) (now : Timestamp), board.closed = false →
        ∃ report, (board.receive publications now).answer = .ok report ∧
          let accepted := board.taken publications now
          (Event.deliveries (board.receive publications now).events =
            accepted.flatMap fun p => (roster.recipients p.name).map fun x => (x.token, p)) ∧
          (∀ p ∈ accepted, ∀ x ∈ roster.recipients p.name, ∀ y ∈ roster.recipients p.name,
            x.topic = y.topic) ∧
          report.delivered = accepted.countP (fun p => roster.recipients p.name ≠ []) ∧
          report.unclaimed = accepted.countP (fun p => roster.recipients p.name = []) := by
  rcases openWith_eq_ok hopen with ⟨-, rfl⟩
  intro board roster
  have hlists : board.Lists roster := (Lists.fresh config policy).after before
  refine ⟨?_, ?_⟩
  · intro call topic later label hmakes subscription box start span
    have hbelow : ∀ x ∈ roster.standing, x.token < roster.made :=
      Roster.below_after (fun x hmem => absurd hmem List.not_mem_nil) before
    rcases Roster.under_step_new hbelow hmakes with ⟨hstands, hmade⟩
    have htoken : subscription.token = roster.made := hlists.next
    calc (box.takeAll label (start.history later)).queue
        = Event.inbox subscription.token (start.history later) :=
          Mailbox.queue_takeAll rfl (start.history later)
      _ = (start.acceptances (roster.step call) later).flatMap fun m =>
            m.2.share subscription.token m.1 :=
          (hlists.perform call).inbox_history subscription.token later
      _ = _ := by
          rw [htoken]
          exact (share_of_standing hstands hmade later start).trans (by simp only [span, htoken])
  · intro publications now hclosed
    rcases hlists.report_receive hclosed publications now with ⟨report, hanswer, hcounts⟩
    have hdeliveries := hlists.deliveries_receiveEach hclosed publications now
    refine ⟨report, hanswer, by simpa [receive, hclosed] using hdeliveries, ?_, hcounts⟩
    intro p _ x hx y hy
    exact Roster.topic_eq_of_recipients hx hy

/-- A dropped subscription to a longer topic takes nothing away, those to the longest topic left all
receive, and those to a shorter one do not. -/
theorem subscriptions_exact_dropped_longer :
    let s := fresh {} (.lifecycle {})
    let a := Name.root.appendGeneric [97]
    let ab := a.appendGeneric [98]
    let p := Publication.stamped ab (.ofNat 7) []
    let before : List Call := [.subscribe .root, .subscribe a, .subscribe ab, .cancel 2]
    let board := s.after before
    let later : List Call := [.receive [p, p] (.ofNat 7), .close, .receive [p] (.ofNat 7)]
    let start := (board.perform (.subscribe a)).session
    let box : Mailbox := ⟨some ("here", 3), a, []⟩
    openWith {} (.lifecycle {}) = .ok s ∧
      (box.takeAll "here" (start.history later)).queue = [p] ∧
      Event.deliveries (board.receive [p] (.ofNat 7)).events = [(1, p)] ∧
      (board.receive [p] (.ofNat 7)).answer.toOption.map (·.delivered) = some 1 := by
  intro s a ab p before board later start box
  have hmain := subscriptions_exact {} (.lifecycle {}) s rfl before
  have hqueue := hmain.1 (.subscribe a) a later "here" rfl
  rcases hmain.2 [p] (.ofNat 7) rfl with ⟨report, hreport, hdeliveries, -, hdelivered, -⟩
  refine ⟨rfl, hqueue.trans (by decide +kernel), hdeliveries.trans (by decide +kernel), ?_⟩
  rw [hreport]
  exact congrArg some (hdelivered.trans (by decide +kernel))

end Session

end Bulletin
