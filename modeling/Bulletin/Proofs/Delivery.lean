import Bulletin.Hub
import Bulletin.Proofs.Effects

/-!
# Delivery — what a run accepts, and who receives it

A session accepts some of the publications that peers send, and hands each of them over as it is
accepted. This file ties the two together:

* `Session.accepted` — the publications that a run accepts, in order;
* `Event.deliveries` — who received what, in order;
* `Session.Numbered` — subscriptions have tokens of their own;
* `Deals` — the deliveries are those of the accepted publications, one after the other, each to
  different subscriptions;
* `Mailbox.takeAll_eq` — a mailbox takes of many events what is delivered to its subscription.
-/

namespace Bulletin

/-! ## Acceptance -/

/-- No two different publications of the list have the same id: the digest does not collide on
them. -/
def Publication.NoCollision (publications : List Publication) : Prop :=
  ∀ p ∈ publications, ∀ q ∈ publications, p.id = q.id → p = q

def Verdict.stores : Verdict → Bool
  | delivered => true
  | unclaimed => true
  | known => false
  | refused => false

namespace Session

def taken (s : Session) (publications : List Publication) (now : Timestamp) : List Publication :=
  ((publications.zip (s.receiveEach publications now).answer).filter (·.2.stores)).map Prod.fst

def acceptedBy (s : Session) : Call → List Publication
  | .receive publications now => if s.closed then [] else s.taken publications now
  | _ => []

def accepted (s : Session) : List Call → List Publication
  | [] => []
  | call :: rest => s.acceptedBy call ++ (s.perform call).session.accepted rest

variable {s : Session} {p : Publication} {now : Timestamp}

theorem stores_receiveOne :
    (s.receiveOne p now).answer.stores = true ↔
      s.table.find? p.id = none ∧ s.policy.valid p now = true := by
  rw [← Table.contains_eq_false_iff]
  cases hknown : s.table.contains p.id with
  | true => simp [receiveOne, hknown, Verdict.stores]
  | false =>
      cases hvalid : s.policy.valid p now with
      | false => simp [receiveOne, hknown, hvalid, Verdict.stores]
      | true =>
          have haccept : (s.accept p now).answer.stores = true := by
            simp only [accept]
            split
            · rfl
            · rfl
          simpa [receiveOne, hknown, hvalid] using haccept

theorem taken_cons (s : Session) (p : Publication) (rest : List Publication) (now : Timestamp) :
    s.taken (p :: rest) now =
      (if (s.receiveOne p now).answer.stores then [p] else []) ++
        (s.receiveOne p now).session.taken rest now := by
  unfold taken
  simp only [receiveEach, List.zip_cons_cons, List.filter_cons]
  split
  · rfl
  · rfl

theorem mem_of_mem_taken {publications : List Publication}
    (hmem : p ∈ s.taken publications now) : p ∈ publications := by
  rcases List.mem_map.mp hmem with ⟨⟨q, verdict⟩, hpair, rfl⟩
  exact (List.of_mem_zip (List.mem_filter.mp hpair).1).1

theorem mem_acceptedBy {call : Call} (hmem : p ∈ s.acceptedBy call) :
    ∃ publications now, call = .receive publications now ∧ s.closed = false ∧
      p ∈ s.taken publications now := by
  cases call with
  | receive publications now =>
      simp only [acceptedBy] at hmem
      split at hmem
      · cases hmem
      · rename_i hopen
        exact ⟨publications, now, rfl, by simpa using hopen, hmem⟩
  | publish | subscribe | subscribeUri | answerPeer | advance | close | cancel => cases hmem

end Session

/-! ## Deliveries -/

namespace Event

def delivery? : Event → Option (Nat × Publication)
  | .delivery token publication => some (token, publication)
  | _ => none

/-- Who receives what, in order. -/
def deliveries (events : List Event) : List (Nat × Publication) :=
  events.filterMap delivery?

theorem deliveries_append (first second : List Event) :
    deliveries (first ++ second) = deliveries first ++ deliveries second :=
  List.filterMap_append

theorem deliveries_notes (notes : List Note) : deliveries (notes.map Event.note) = [] := by
  simp [deliveries, delivery?]

theorem deliveries_flatMap_eq_nil {α : Type} {rows : List α} {f : α → List Event}
    (h : ∀ row ∈ rows, deliveries (f row) = []) : deliveries (rows.flatMap f) = [] :=
  List.filterMap_flatMap.trans (List.flatMap_eq_nil_iff.mpr h)

end Event

/-- A mailbox queues what is delivered to its source, in order, and nothing else about it changes. -/
theorem Mailbox.takeAll_eq (box : Mailbox) (name : String) (events : List Event) :
    box.takeAll name events =
      { box with
        queue := box.queue ++ ((Event.deliveries events).filter fun d =>
          box.source = some (name, d.1)).map Prod.snd } := by
  induction events generalizing box with
  | nil => simp [takeAll, Event.deliveries]
  | cons event rest ih =>
      have hstep : box.takeAll name (event :: rest) = (box.take name event).takeAll name rest := rfl
      rw [hstep, ih]
      cases event with
      | note remark => rfl
      | receipt label publication confirmed => rfl
      | delivery token p =>
          have hfirst : Event.deliveries (.delivery token p :: rest) =
              (token, p) :: Event.deliveries rest := rfl
          rw [hfirst]
          by_cases hsource : box.source = some (name, token)
          · simp [take, hsource]
          · simp [take, hsource]

theorem Mailbox.mem_queue_takeAll {box : Mailbox} {name : String} {events : List Event}
    {p : Publication} (h : p ∈ (box.takeAll name events).queue) :
    p ∈ box.queue ∨ ∃ token, (token, p) ∈ Event.deliveries events := by
  rw [takeAll_eq] at h
  rcases List.mem_append.mp h with hold | hnew
  · exact Or.inl hold
  · rcases List.mem_map.mp hnew with ⟨⟨token, q⟩, hmem, rfl⟩
    exact Or.inr ⟨token, (List.mem_filter.mp hmem).1⟩

namespace Entry

theorem deliveries_lossEvents (e : Entry) (w : Window) (now : Timestamp) :
    Event.deliveries (e.lossEvents w now) = [] := by
  unfold lossEvents
  split
  · split
    · rfl
    · rfl
  · rfl

theorem deliveries_confirmEvents (e : Entry) (id : PublicationId) (peer : Summary) :
    Event.deliveries (e.confirmEvents id peer) = [] := by
  unfold confirmEvents
  split
  · split
    · rfl
    · rfl
  · rfl

end Entry

/-- The deliveries are those of the publications, one after the other, and each publication goes to
different subscriptions. -/
inductive Deals : List Publication → List (Nat × Publication) → Prop where
  | nil : Deals [] []
  | cons {p : Publication} {tokens : List Nat} {rest : List Publication}
      {later : List (Nat × Publication)} :
      tokens.Nodup → Deals rest later →
      Deals (p :: rest) (tokens.map (fun token => (token, p)) ++ later)

namespace Deals

theorem append {first second : List Publication} {early late : List (Nat × Publication)}
    (h : Deals first early) (h' : Deals second late) :
    Deals (first ++ second) (early ++ late) := by
  induction h with
  | nil => exact h'
  | cons hnodup _ ih =>
      rw [List.append_assoc]
      exact Deals.cons hnodup ih

theorem mem {publications : List Publication} {deliveries : List (Nat × Publication)}
    (h : Deals publications deliveries) {token : Nat} {p : Publication}
    (hmem : (token, p) ∈ deliveries) : p ∈ publications := by
  induction h with
  | nil => cases hmem
  | cons _ _ ih =>
      rcases List.mem_append.mp hmem with hhere | hlater
      · rcases List.mem_map.mp hhere with ⟨_, _, hsame⟩
        cases hsame
        exact List.mem_cons_self
      · exact List.mem_cons_of_mem _ (ih hlater)

/-- If no publication comes twice, no subscription receives one twice. -/
theorem nodup {publications : List Publication} {deliveries : List (Nat × Publication)}
    (h : Deals publications deliveries) (hnodup : publications.Nodup) : deliveries.Nodup := by
  induction h with
  | nil => exact List.nodup_nil
  | @cons p tokens rest later htokens hlater ih =>
      rcases List.nodup_cons.mp hnodup with ⟨hnew, hrest⟩
      refine List.nodup_append.mpr ⟨?_, ih hrest, ?_⟩
      · refine List.Pairwise.map _ ?_ htokens
        intro a b hne hsame
        exact hne (Prod.mk.inj hsame).1
      · intro first hfirst second hsecond hsame
        rcases List.mem_map.mp hfirst with ⟨token, -, rfl⟩
        subst hsame
        exact hnew (hlater.mem hsecond)

end Deals

/-! ## Tokens -/

namespace Session

/-- Subscriptions have tokens of their own, which the next one will not take. -/
structure Numbered (s : Session) : Prop where
  distinct : (s.subscriptions.map Subscription.token).Nodup
  below : ∀ x ∈ s.subscriptions, x.token < s.nextToken

namespace Numbered

variable {s : Session}

theorem fresh (config : SessionConfig) (policy : Policy) : (Session.fresh config policy).Numbered :=
  ⟨List.nodup_nil, by intro x hmem; cases hmem⟩

theorem of_sublist {t : Session} (h : s.Numbered) (hsub : t.subscriptions.Sublist s.subscriptions)
    (hnext : t.nextToken = s.nextToken) : t.Numbered where
  distinct := (hsub.map Subscription.token).nodup h.distinct
  below := by
    intro x hmem
    rw [hnext]
    exact h.below x (hsub.subset hmem)

theorem subscribe (h : s.Numbered) (topic : Name) : (s.subscribe topic).session.Numbered where
  distinct := by
    simp only [Session.subscribe, List.map_append, List.map_cons, List.map_nil]
    refine List.nodup_append.mpr ⟨h.distinct, by simp, ?_⟩
    intro token hmem next hnext hsame
    rcases List.mem_map.mp hmem with ⟨x, hx, rfl⟩
    have hbelow := h.below x hx
    have htoken : next = s.nextToken := by simpa using hnext
    omega
  below := by
    intro x hmem
    rcases List.mem_append.mp hmem with hold | hnew
    · exact Nat.lt_succ_of_lt (h.below x hold)
    · rw [List.mem_singleton.mp hnew]
      exact Nat.lt_succ_self s.nextToken

theorem cancel (h : s.Numbered) (token : Nat) : (s.cancel token).Numbered := by
  have hkeep : ∀ x : Subscription,
      (if x.token = token then { x with live := false } else x).token = x.token := by
    intro x
    split
    · rfl
    · rfl
  refine ⟨?_, ?_⟩
  · have hsame : ((s.cancel token).subscriptions.map Subscription.token) =
        s.subscriptions.map Subscription.token := by
      simp [Session.cancel, Function.comp_def, hkeep]
    rw [hsame]
    exact h.distinct
  · intro x hmem
    rcases List.mem_map.mp hmem with ⟨old, hold, rfl⟩
    have hbelow := h.below old hold
    exact (hkeep old).symm ▸ hbelow

end Numbered

/-- A received publication changes the subscriptions by purging them, if at all. -/
theorem subscriptions_receiveOne (s : Session) (p : Publication) (now : Timestamp) :
    (s.receiveOne p now).session.subscriptions.Sublist s.subscriptions ∧
      (s.receiveOne p now).session.nextToken = s.nextToken := by
  rcases s.session_receiveOne p now with hsame | hstored
  · rw [hsame]
    exact ⟨List.Sublist.refl _, rfl⟩
  · rw [hstored]
    exact ⟨List.filter_sublist, rfl⟩

theorem Numbered.receiveOne {s : Session} (h : s.Numbered) (p : Publication) (now : Timestamp) :
    (s.receiveOne p now).session.Numbered := by
  have hone := s.subscriptions_receiveOne p now
  exact h.of_sublist hone.1 hone.2

theorem Numbered.perform {s : Session} (h : s.Numbered) (call : Call) :
    (s.perform call).session.Numbered := by
  cases call with
  | publish name payload now receipt =>
      simp only [Session.perform, publish, Step.discard]
      split
      · exact h
      · split
        · exact h
        · exact ⟨h.distinct, h.below⟩
  | subscribe topic => exact h.subscribe topic
  | subscribeUri topic =>
      simp only [Session.perform, subscribeUri, Step.discard]
      split
      · exact h
      · exact h.subscribe _
  | receive publications now =>
      simp only [Session.perform, receive, Step.discard]
      split
      · exact h
      · exact receiveEach_induction (fun _ p ht => ht.receiveOne p now) h publications
  | answerPeer peer now =>
      cases hclosed : s.closed with
      | true => simpa [Session.perform, Step.discard, answerPeer, hclosed] using h
      | false =>
          simp only [Session.perform, Step.discard, session_answerPeer hclosed peer now]
          exact ⟨h.distinct, h.below⟩
  | advance now => exact ⟨h.distinct, h.below⟩
  | close =>
      simp only [Session.perform, close]
      split
      · exact h
      · exact h.of_sublist (List.nil_sublist _) rfl
  | cancel token => exact h.cancel token

/-! ## Deliveries of a run -/

theorem deliveries_accept (s : Session) (p : Publication) (now : Timestamp) :
    Event.deliveries (s.accept p now).events =
      (Subscription.recipients (s.subscriptions.filter (·.live)) p.name).map fun x =>
        (x.token, p) := by
  have hpurge : Event.deliveries (s.store p.id (.arrival p false now none)).purge.events = [] := by
    simp only [purge]
    split
    · rfl
    · rfl
  simp only [accept, deliver, Event.deliveries_append, hpurge, List.nil_append]
  simp [Event.deliveries, Event.delivery?, purge, store, Function.comp_def]

theorem nodup_recipients {subscriptions : List Subscription} (name : Name)
    (h : (subscriptions.map Subscription.token).Nodup) :
    ((Subscription.recipients subscriptions name).map Subscription.token).Nodup := by
  have hsub : (Subscription.recipients subscriptions name).Sublist subscriptions :=
    List.filter_sublist.trans List.filter_sublist
  exact (hsub.map Subscription.token).nodup h

theorem deliveries_receiveOne {s : Session} {p : Publication} {now : Timestamp}
    (hstores : (s.receiveOne p now).answer.stores = true) :
    Event.deliveries (s.receiveOne p now).events =
      (Subscription.recipients (s.subscriptions.filter (·.live)) p.name).map fun x =>
        (x.token, p) := by
  rcases stores_receiveOne.mp hstores with ⟨hnew, hvalid⟩
  have hknown := Table.contains_eq_false_iff.mpr hnew
  rw [← deliveries_accept s p now]
  simp only [receiveOne, hknown, hvalid, Bool.false_eq_true, if_false, if_true,
    Event.deliveries_append, Event.deliveries_notes, List.nil_append]

theorem deliveries_receiveOne_eq_nil {s : Session} {p : Publication} {now : Timestamp}
    (hignored : (s.receiveOne p now).answer.stores = false) :
    Event.deliveries (s.receiveOne p now).events = [] := by
  cases hknown : s.table.contains p.id with
  | true =>
      simp only [receiveOne, hknown, if_true]
      rfl
  | false =>
      cases hvalid : s.policy.valid p now with
      | false =>
          simp only [receiveOne, hknown, hvalid, Bool.false_eq_true, if_false,
            Event.deliveries_append, Event.deliveries_notes, List.nil_append]
          rfl
      | true =>
          have hstores := stores_receiveOne.mpr ⟨Table.contains_eq_false_iff.mp hknown, hvalid⟩
          rw [hignored] at hstores
          cases hstores

theorem deals_receiveOne {s : Session} (h : s.Numbered) (p : Publication) (now : Timestamp) :
    Deals (if (s.receiveOne p now).answer.stores then [p] else [])
      (Event.deliveries (s.receiveOne p now).events) := by
  cases hstores : (s.receiveOne p now).answer.stores with
  | false =>
      rw [deliveries_receiveOne_eq_nil hstores]
      exact Deals.nil
  | true =>
      have hlive : ((s.subscriptions.filter (·.live)).map Subscription.token).Nodup :=
        (List.filter_sublist.map Subscription.token).nodup h.distinct
      have hone := Deals.cons (p := p) (nodup_recipients p.name hlive) Deals.nil
      rw [deliveries_receiveOne hstores]
      simpa [Function.comp_def] using hone

theorem deals_receiveEach {s : Session} (h : s.Numbered) (publications : List Publication)
    (now : Timestamp) :
    Deals (s.taken publications now)
      (Event.deliveries (s.receiveEach publications now).events) := by
  induction publications generalizing s with
  | nil => exact Deals.nil
  | cons p rest ih =>
      have hone := s.subscriptions_receiveOne p now
      have hrest := ih (h.of_sublist hone.1 hone.2)
      rw [taken_cons]
      simp only [receiveEach, Event.deliveries_append]
      exact (deals_receiveOne h p now).append hrest

theorem deliveries_advance (s : Session) (now : Timestamp) :
    Event.deliveries (s.advance now).events = [] := by
  have hnotes : Event.deliveries (s.table.byId.flatMap fun row =>
      (row.2.timerNotes row.1 s.config.window now).map Event.note) = [] :=
    Event.deliveries_flatMap_eq_nil fun row _ => Event.deliveries_notes _
  have hlosses : Event.deliveries (s.table.byId.flatMap fun row =>
      row.2.lossEvents s.config.window now) = [] :=
    Event.deliveries_flatMap_eq_nil fun row _ => row.2.deliveries_lossEvents _ now
  simp only [advance, Event.deliveries_append]
  exact List.append_eq_nil_iff.mpr ⟨hnotes, hlosses⟩

theorem deliveries_confirm (s : Session) (peer : Summary) :
    Event.deliveries (s.confirm peer).events = [] :=
  Event.deliveries_flatMap_eq_nil fun row _ => row.2.deliveries_confirmEvents row.1 peer

theorem deliveries_answerPeer (s : Session) (peer : Summary) (now : Timestamp) :
    Event.deliveries (s.answerPeer peer now).events = [] := by
  simp only [answerPeer]
  split
  · rfl
  · split
    · simp only [Event.deliveries_append, deliveries_advance, deliveries_confirm]
      rfl
    · simp only [Event.deliveries_append, deliveries_advance, deliveries_confirm]
      rfl

/-- A call that receives nothing delivers nothing, and accepts nothing. -/
theorem quiet_perform (s : Session) {call : Call}
    (hother : ¬ ∃ publications now, call = .receive publications now) :
    Event.deliveries (s.perform call).events = [] ∧ s.acceptedBy call = [] := by
  cases call with
  | publish name payload now receipt =>
      simp only [perform, publish, Step.discard]
      split
      · exact ⟨rfl, rfl⟩
      · split
        · exact ⟨rfl, rfl⟩
        · exact ⟨rfl, rfl⟩
  | subscribe topic => exact ⟨rfl, rfl⟩
  | subscribeUri topic =>
      simp only [perform, subscribeUri, Step.discard]
      split
      · exact ⟨rfl, rfl⟩
      · exact ⟨rfl, rfl⟩
  | receive publications now => exact absurd ⟨publications, now, rfl⟩ hother
  | answerPeer peer now => exact ⟨s.deliveries_answerPeer peer now, rfl⟩
  | advance now => exact ⟨s.deliveries_advance now, rfl⟩
  | close =>
      simp only [perform, close]
      split
      · exact ⟨rfl, rfl⟩
      · exact ⟨rfl, rfl⟩
  | cancel token => exact ⟨rfl, rfl⟩

/-- Only received publications are delivered, as they are accepted. -/
theorem deals_perform {s : Session} (h : s.Numbered) (call : Call) :
    Deals (s.acceptedBy call) (Event.deliveries (s.perform call).events) := by
  by_cases hreceive : ∃ publications now, call = .receive publications now
  · rcases hreceive with ⟨publications, now, rfl⟩
    cases hclosed : s.closed with
    | true =>
        simp only [acceptedBy, perform, receive, Step.discard, hclosed, if_true]
        exact Deals.nil
    | false =>
        simpa [acceptedBy, perform, receive, Step.discard, hclosed] using
          deals_receiveEach h publications now
  · rcases s.quiet_perform hreceive with ⟨hnone, hnothing⟩
    rw [hnone, hnothing]
    exact Deals.nil

theorem deals_history {s : Session} (h : s.Numbered) (calls : List Call) :
    Deals (s.accepted calls) (Event.deliveries (s.history calls)) := by
  induction calls generalizing s with
  | nil => exact Deals.nil
  | cons call rest ih =>
      rw [history_cons, Event.deliveries_append]
      exact (deals_perform h call).append (ih (h.perform call))

end Session

end Bulletin
