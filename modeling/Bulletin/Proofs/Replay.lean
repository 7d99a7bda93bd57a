import Bulletin.Proofs.Delivery
import Bulletin.Proofs.Invariant

/-!
# Replay — how often a publication can be accepted

A session knows a publication again as long as its entry lasts, which is twice the lifetime from its
arrival. Peers may send it again after that, and the freshness window has to refuse it. The window
reaches the skew into the future, so it refuses in time exactly when the skew is not too long:

* `Window.not_fresh_of_forgotten` — with `2 * skew ≤ lifetime + 1` whatever is forgotten is stale;
* `Session.Bars` — a publication is remembered, or stale from now on;
* `Session.accepted_at_most_once` — below the threshold nothing is accepted twice, and above it a
  subscription receives the same publication twice.
-/

namespace Bulletin

/-! ## The threshold -/

namespace Window

variable {w : Window} {L S : Nat}

/-- Lifetime and skew are `L` and `S` whole microseconds. -/
structure Whole (w : Window) (L S : Nat) : Prop where
  lifetime : w.lifetime.nanos = 1000 * L
  skew : w.skew.nanos = 1000 * S

theorem Whole.fresh_iff (h : w.Whole L S) {p : Publication} {now : Timestamp} :
    w.fresh p now = true ↔
      p.timestamp.toNat < now.toNat + S ∧ now.toNat < p.timestamp.toNat + L + S := by
  have hlifetime : w.lifetime.micros = L := Duration.micros_of_nanos h.lifetime
  have hskew : w.skew.micros = S := Duration.micros_of_nanos h.skew
  rw [Window.fresh_iff, hlifetime, hskew]

/-- Before the last instant an entry is forgotten no earlier than twice the lifetime after its
arrival; a doubled lifetime that was clamped is never over. -/
theorem Whole.double_le (h : w.Whole L S) {t now : Timestamp}
    (hdue : t.after w.lifetime.double ≤ now) (hnow : now.toNat < 2 ^ 64 - 1) :
    t.toNat + 2 * L ≤ now.toNat := by
  have hle := Timestamp.add_le_of_after_le hdue hnow
  have hnanos := w.lifetime.nanos_double
  have hlifetime := h.lifetime
  unfold Duration.micros at hle
  omega

/-- A publication whose entry is forgotten after an arrival in its window is stale from then on. -/
theorem not_fresh_of_forgotten (h : w.Whole L S) (hskew : 2 * S ≤ L + 1) {p : Publication}
    {t now later : Timestamp} (hfresh : w.fresh p t = true)
    (hdue : t.after w.lifetime.double ≤ now) (hnow : now.toNat < 2 ^ 64 - 1) (hle : now ≤ later) :
    w.fresh p later = false := by
  have hdouble : t.toNat + 2 * L ≤ now.toNat := h.double_le hdue hnow
  have harrival := h.fresh_iff.mp hfresh
  have hlater : now.toNat ≤ later.toNat := hle
  cases hstill : w.fresh p later with
  | false => rfl
  | true =>
      have hwindow := h.fresh_iff.mp hstill
      omega

theorem fresh_congr {p q : Publication} (h : q.timestamp = p.timestamp) (now : Timestamp) :
    w.fresh q now = w.fresh p now := by
  simp [fresh, expired, h]

end Window

/-! ## What cannot come again -/

namespace Session

variable {s : Session} {clock now : Timestamp} {p : Publication}

/-- The publication is known since a time at which it was fresh, or it is stale from `clock` on. -/
def Bars (s : Session) (clock : Timestamp) (p : Publication) : Prop :=
  (∃ e, s.table.find? p.id = some e ∧ s.config.window.fresh p e.arrived = true) ∨
    ∀ t, clock ≤ t → s.config.window.fresh p t = false

theorem Bars.receiveOne (h : s.Bars clock p) (q : Publication) (now : Timestamp) :
    (s.receiveOne q now).session.Bars clock p := by
  unfold Bars
  rw [(s.settings_receiveOne q now).1]
  rcases h with ⟨e, hfind, hfresh⟩ | hstale
  · refine Or.inl ⟨e, ?_, hfresh⟩
    rw [find?_receiveOne, hfind]
    rfl
  · exact Or.inr hstale

/-- Below the threshold a call cannot lift a bar: the entry stays, or what was forgotten is stale. -/
theorem Bars.perform {L S : Nat} (hwhole : s.config.window.Whole L S) (hskew : 2 * S ≤ L + 1)
    (h : s.Bars clock p) {call : Call}
    (hclock : clock ≤ call.time?.getD clock)
    (hbounded : ∀ now, call.time? = some now → now.toNat < 2 ^ 64 - 1) :
    (s.perform call).session.Bars (call.time?.getD clock) p := by
  unfold Bars
  rw [(s.settings_perform call).1]
  rcases h with ⟨e, hfind, hfresh⟩ | hstale
  · rcases kept_or_forgotten hfind call with ⟨e', hfind', -, -, harrived⟩ | ⟨now, hcall, hdue, -⟩
    · exact Or.inl ⟨e', hfind', harrived ▸ hfresh⟩
    · refine Or.inr fun t ht => ?_
      rw [hcall] at ht
      exact Window.not_fresh_of_forgotten hwhole hskew hfresh hdue (hbounded now hcall) ht
  · exact Or.inr fun t ht => hstale t (Nat.le_trans hclock ht)

/-! ## One list of publications -/

/-- An accepted publication bars itself. -/
theorem bars_of_stores (hpolicy : s.policy = .lifecycle s.config.window)
    (hstores : (s.receiveOne p now).answer.stores = true) :
    (s.receiveOne p now).session.Bars now p := by
  rcases stores_receiveOne.mp hstores with ⟨hnew, hvalid⟩
  have hfresh : s.config.window.fresh p now = true := by
    rw [hpolicy] at hvalid
    exact hvalid
  unfold Bars
  rw [(s.settings_receiveOne p now).1]
  refine Or.inl ⟨.arrival p false now none, ?_, hfresh⟩
  rw [find?_receiveOne, hnew]
  simp [incoming, hvalid]

/-- What is barred is not accepted, nor is anything of the same id and stamp. -/
theorem Bars.not_stores (hpolicy : s.policy = .lifecycle s.config.window) (h : s.Bars clock p)
    (hle : clock ≤ now) {q : Publication} (hid : q.id = p.id) (hstamp : q.timestamp = p.timestamp) :
    (s.receiveOne q now).answer.stores = false := by
  cases hstores : (s.receiveOne q now).answer.stores with
  | false => rfl
  | true =>
      rcases stores_receiveOne.mp hstores with ⟨hnew, hvalid⟩
      rcases h with ⟨e, hfind, -⟩ | hstale
      · rw [hid, hfind] at hnew
        cases hnew
      · have hfresh : s.config.window.fresh q now = true := by
          rw [hpolicy] at hvalid
          exact hvalid
        rw [Window.fresh_congr hstamp, hstale now hle] at hfresh
        cases hfresh

theorem lifecycle_receiveOne (hpolicy : s.policy = .lifecycle s.config.window) (p : Publication)
    (now : Timestamp) :
    (s.receiveOne p now).session.policy =
      .lifecycle (s.receiveOne p now).session.config.window := by
  rw [(s.settings_receiveOne p now).1, (s.settings_receiveOne p now).2.1, hpolicy]

theorem Bars.not_mem_taken (hpolicy : s.policy = .lifecycle s.config.window) (h : s.Bars clock p)
    (hle : clock ≤ now) {publications : List Publication} :
    ∀ q ∈ s.taken publications now, p.id = q.id → p.timestamp ≠ q.timestamp := by
  induction publications generalizing s with
  | nil =>
      intro q hmem
      cases hmem
  | cons first rest ih =>
      intro q hmem hid hstamp
      rw [taken_cons] at hmem
      rcases List.mem_append.mp hmem with hfirst | hrest
      · split at hfirst
        · rename_i hstores
          rw [List.mem_singleton.mp hfirst] at hid hstamp
          rw [h.not_stores hpolicy hle hid.symm hstamp.symm] at hstores
          cases hstores
        · cases hfirst
      · exact ih (lifecycle_receiveOne hpolicy first now) (h.receiveOne first now) q hrest hid hstamp

theorem bars_of_mem_taken (hpolicy : s.policy = .lifecycle s.config.window)
    {publications : List Publication} (hmem : p ∈ s.taken publications now) :
    (s.receiveEach publications now).session.Bars now p := by
  induction publications generalizing s with
  | nil => cases hmem
  | cons first rest ih =>
      rw [taken_cons] at hmem
      rcases List.mem_append.mp hmem with hfirst | hrest
      · split at hfirst
        · rename_i hstores
          rw [List.mem_singleton.mp hfirst]
          exact receiveEach_induction (P := fun t => t.Bars now first)
            (fun _ q hbars => hbars.receiveOne q now) (bars_of_stores hpolicy hstores) rest
        · cases hfirst
      · exact ih (lifecycle_receiveOne hpolicy first now) hrest

/-- Two publications of one list with the same id are accepted only if their stamps differ. -/
theorem pairwise_taken (hpolicy : s.policy = .lifecycle s.config.window)
    (publications : List Publication) (now : Timestamp) :
    (s.taken publications now).Pairwise fun p q => p.id = q.id → p.timestamp ≠ q.timestamp := by
  induction publications generalizing s with
  | nil => exact List.Pairwise.nil
  | cons first rest ih =>
      have hpolicy' := lifecycle_receiveOne hpolicy first now
      rw [taken_cons]
      split
      · rename_i hstores
        have hbars := bars_of_stores hpolicy hstores
        exact List.pairwise_cons.mpr ⟨hbars.not_mem_taken hpolicy' (Nat.le_refl _), ih hpolicy'⟩
      · exact ih hpolicy'

/-! ## Whole runs -/

/-- The session judges by its own window of `L` and `S` microseconds, and the skew is short enough. -/
structure Guarded (s : Session) (L S : Nat) : Prop where
  policy : s.policy = .lifecycle s.config.window
  whole : s.config.window.Whole L S
  threshold : 2 * S ≤ L + 1

theorem Guarded.perform {L S : Nat} (h : s.Guarded L S) (call : Call) :
    (s.perform call).session.Guarded L S := by
  have hsettings := s.settings_perform call
  refine ⟨?_, ?_, h.threshold⟩
  · rw [hsettings.1, hsettings.2.1]
    exact h.policy
  · rw [hsettings.1]
    exact h.whole

/-- By induction over the run: a bar is kept by every call, and nothing barred is accepted. -/
theorem Bars.not_mem_accepted {L S : Nat} (hguarded : s.Guarded L S) (h : s.Bars clock p)
    {calls : List Call} (hchron : Call.Chronological clock calls)
    (hbounded : ∀ call ∈ calls, ∀ now, call.time? = some now → now.toNat < 2 ^ 64 - 1) :
    ∀ q ∈ s.accepted calls, p.id = q.id → p.timestamp ≠ q.timestamp := by
  induction calls generalizing s clock with
  | nil =>
      intro q hmem
      cases hmem
  | cons call rest ih =>
      rcases hchron.cons with ⟨hclock, hrest⟩
      rcases List.forall_mem_cons.mp hbounded with ⟨hnow, hlast⟩
      intro q hmem
      rcases List.mem_append.mp hmem with hcall | hlater
      · rcases mem_acceptedBy hcall with ⟨publications, now, rfl, -, htaken⟩
        exact h.not_mem_taken hguarded.policy hclock q htaken
      · have hbars := h.perform hguarded.whole hguarded.threshold hclock hnow
        exact ih (hguarded.perform call) hbars hrest hlast q hlater

theorem pairwise_accepted {L S : Nat} (hguarded : s.Guarded L S) {calls : List Call}
    (hchron : Call.Chronological clock calls)
    (hbounded : ∀ call ∈ calls, ∀ now, call.time? = some now → now.toNat < 2 ^ 64 - 1) :
    (s.accepted calls).Pairwise fun p q => p.id = q.id → p.timestamp ≠ q.timestamp := by
  induction calls generalizing s clock with
  | nil => exact List.Pairwise.nil
  | cons call rest ih =>
      rcases hchron.cons with ⟨-, hrest⟩
      have hlast := (List.forall_mem_cons.mp hbounded).2
      refine List.pairwise_append.mpr ⟨?_, ih (hguarded.perform call) hrest hlast, ?_⟩
      · cases call with
        | receive publications now =>
            simp only [acceptedBy]
            split
            · exact List.Pairwise.nil
            · exact pairwise_taken hguarded.policy publications now
        | publish | subscribe | subscribeUri | answerPeer | advance | close | cancel =>
            exact List.Pairwise.nil
      · intro p hmem
        rcases mem_acceptedBy hmem with ⟨publications, now, rfl, hopen, htaken⟩
        have hsession : (s.perform (.receive publications now)).session =
            (s.receiveEach publications now).session := session_receive hopen publications now
        have hbars : (s.perform (.receive publications now)).session.Bars now p := by
          rw [hsession]
          exact bars_of_mem_taken hguarded.policy htaken
        exact hbars.not_mem_accepted (hguarded.perform _) hrest hlast

/-! ## Above the threshold -/

/-- A single live subscription that covers an accepted publication receives it and stays. -/
theorem receive_by_only (s : Session) (p : Publication) (now : Timestamp) (x : Subscription)
    (hopen : s.closed = false) (hsubscriptions : s.subscriptions = [x]) (hlive : x.live = true)
    (hcovers : x.topic.covers p.name = true) (hnew : s.table.find? p.id = none)
    (hvalid : s.policy.valid p now = true) :
    let step := s.perform (.receive [p] now)
    Event.deliveries step.events = [(x.token, p)] ∧ step.session.subscriptions = [x] ∧
      step.session.table.find? p.id = some (.arrival p false now none) ∧
      step.session.closed = false := by
  intro step
  have hsession : step.session = (s.receiveOne p now).session := session_receive hopen [p] now
  have hevents : step.events = (s.receiveOne p now).events := by
    simp [step, perform, Step.discard, receive, hopen, receiveEach]
  have hstores := stores_receiveOne.mpr ⟨hnew, hvalid⟩
  have haccepted := receiveOne_of_accepted (Table.contains_eq_false_iff.mpr hnew) hvalid
  refine ⟨?_, ?_, ?_, ?_⟩
  · rw [hevents, deliveries_receiveOne hstores, hsubscriptions]
    simp [Subscription.recipients, Subscription.covering, Subscription.longest?, hlive, hcovers]
  · rw [hsession, haccepted]
    simp [hsubscriptions, hlive]
  · rw [hsession, find?_receiveOne, hnew]
    simp [incoming, hvalid]
  · rw [hsession, (s.settings_receiveOne p now).2.2]
    exact hopen

/-- Stamped just inside the skew and received at once, a publication is forgotten while its window is
still open. -/
theorem received_twice {config : SessionConfig} {L S : Nat} (hwhole : config.window.Whole L S)
    (hL : L < 2 ^ 62) (hS : S < 2 ^ 62) (hskew : L + 2 ≤ 2 * S) :
    let s := fresh config (.lifecycle config.window)
    ∃ p topic first middle last, first ≤ middle ∧ middle ≤ last ∧ last.toNat < 2 ^ 64 - 1 ∧
      let run : List Call :=
        [.subscribe topic, .receive [p] first, .advance middle, .receive [p] last]
      Event.deliveries (s.history run) = [(0, p), (0, p)] ∧
        (s.after run).subscriptions = [⟨0, topic, true⟩] := by
  intro s
  let p := Publication.stamped .root (.ofNat (S - 1)) []
  let last := Timestamp.ofNat (2 * L)
  have hstamp : p.timestamp.toNat = S - 1 := by
    rw [Publication.timestamp_of_timestamp? (Publication.timestamp?_stamped _ _ _)]
    exact Timestamp.toNat_ofNat (by omega)
  have hzero : Timestamp.zero.toNat = 0 := rfl
  have hlast : last.toNat = 2 * L := Timestamp.toNat_ofNat (by omega)
  have hfresh : config.window.fresh p .zero = true := by
    rw [hwhole.fresh_iff, hstamp, hzero]
    omega
  have hagain : config.window.fresh p last = true := by
    rw [hwhole.fresh_iff, hstamp, hlast]
    omega
  have hforgotten : Timestamp.zero.after config.window.lifetime.double ≤ last := by
    have hnanos := config.window.lifetime.nanos_double
    rw [hwhole.lifetime] at hnanos
    rw [Timestamp.le_iff, Timestamp.toNat_after, hzero, hlast]
    unfold Duration.micros
    omega
  -- The session after each call, and what it needs for the next one.
  let subscribed := (s.perform (.subscribe .root)).session
  rcases receive_by_only subscribed p .zero ⟨0, .root, true⟩ rfl rfl rfl rfl rfl hfresh with
    ⟨hfirst, hsubscriptions, hstored, hopen⟩
  let received := (subscribed.perform (.receive [p] .zero)).session
  have hconfig : received.config = config := (subscribed.settings_perform _).1
  have hpolicy : received.policy = .lifecycle config.window := (subscribed.settings_perform _).2.1
  let aged := (received.perform (.advance last)).session
  have hgone : aged.table.find? p.id = none := by
    have haged := received.find?_advance last p.id
    rw [hstored, hconfig] at haged
    exact haged.trans (Entry.aged_eq_none_iff.mpr hforgotten)
  have hvalid : aged.policy.valid p last = true := by
    have hkept : aged.policy = received.policy := (received.settings_perform _).2.1
    rw [hkept, hpolicy]
    exact hagain
  rcases receive_by_only aged p last ⟨0, .root, true⟩ hopen hsubscriptions rfl rfl hgone hvalid with
    ⟨hsecond, hstays, -, -⟩
  refine ⟨p, .root, .zero, last, last, Nat.zero_le _, Nat.le_refl _, by omega, ?_, hstays⟩
  have hquiet : Event.deliveries (received.perform (.advance last)).events = [] :=
    received.deliveries_advance last
  simp only [history_cons, history_nil, Event.deliveries_append]
  rw [hfirst, hquiet, hsecond]
  rfl

/-- How often a publication can be accepted, for lifetime `L` and skew `S` in microseconds.

If `2 * S ≤ L + 1`, an id is accepted again only for a publication with another stamp, that is if the
digest collides; so ids without collision, and publications in any case, are accepted once, and no
subscription receives a publication twice. If `L + 2 ≤ 2 * S`, one does. -/
theorem accepted_at_most_once (config : SessionConfig) (s : Session) (L S : Nat)
    (hopen : openDefault config = .ok s) (hwhole : config.window.Whole L S) :
    (2 * S ≤ L + 1 → ∀ calls : List Call, (calls.filterMap Call.time?).Pairwise (· ≤ ·) →
      (∀ t ∈ calls.filterMap Call.time?, t.toNat < 2 ^ 64 - 1) →
      (s.accepted calls).Pairwise (fun p q => p.id = q.id → p.timestamp ≠ q.timestamp) ∧
        (s.accepted calls).Nodup ∧
        (Publication.NoCollision (s.accepted calls) →
          ((s.accepted calls).map Publication.id).Nodup) ∧
        (Event.deliveries (s.history calls)).Nodup) ∧
      (L < 2 ^ 62 → S < 2 ^ 62 → L + 2 ≤ 2 * S →
        ∃ p topic first middle last, first ≤ middle ∧ middle ≤ last ∧ last.toNat < 2 ^ 64 - 1 ∧
          let run : List Call :=
            [.subscribe topic, .receive [p] first, .advance middle, .receive [p] last]
          Event.deliveries (s.history run) = [(0, p), (0, p)] ∧
            (s.after run).subscriptions = [⟨0, topic, true⟩]) := by
  rcases openWith_eq_ok hopen with ⟨-, rfl⟩
  refine ⟨?_, received_twice hwhole⟩
  intro hthreshold calls horder hbounded
  have hbefore : ∀ call ∈ calls, ∀ now, call.time? = some now → now.toNat < 2 ^ 64 - 1 :=
    fun call hmem now htime => hbounded now (List.mem_filterMap.mpr ⟨call, hmem, htime⟩)
  have hguarded : (fresh config (.lifecycle config.window)).Guarded L S :=
    ⟨rfl, hwhole, hthreshold⟩
  have hpairwise := pairwise_accepted hguarded (.of_pairwise horder) hbefore
  have hnodup : ((fresh config (.lifecycle config.window)).accepted calls).Nodup := by
    refine hpairwise.imp ?_
    rintro p q hdiffer rfl
    exact hdiffer rfl rfl
  have hdeals := deals_history (Numbered.fresh config (.lifecycle config.window)) calls
  refine ⟨hpairwise, hnodup, ?_, hdeals.nodup hnodup⟩
  intro hcollision
  refine List.pairwise_map.mpr (hnodup.imp_of_mem ?_)
  intro p q hp hq hne hid
  exact hne (hcollision p hp q hq hid)

/-- At the threshold a publication that is replayed when it is forgotten arrives once; with the
default window it arrives twice. -/
theorem accepted_at_most_once_replay :
    let config : SessionConfig := { window := ⟨.ofMicros 9, .ofMicros 5⟩ }
    let s := fresh config (.lifecycle config.window)
    let p := Publication.stamped .root (.ofNat 4) []
    let run : List Call :=
      [.subscribe .root, .receive [p, p] .zero, .advance (.ofNat 18), .receive [p] (.ofNat 18)]
    (Event.deliveries (s.history run)).Nodup ∧
      ∃ p topic first middle last, first ≤ middle ∧ middle ≤ last ∧ last.toNat < 2 ^ 64 - 1 ∧
        let run : List Call :=
          [.subscribe topic, .receive [p] first, .advance middle, .receive [p] last]
        Event.deliveries ((fresh {} (.lifecycle {})).history run) = [(0, p), (0, p)] ∧
          ((fresh {} (.lifecycle {})).after run).subscriptions = [⟨0, topic, true⟩] := by
  intro config s p run
  have hshort := accepted_at_most_once config s 9 5 rfl ⟨by decide, by decide⟩
  have hlong := accepted_at_most_once {} (fresh {} (.lifecycle {})) 1000000 1000000 rfl
    ⟨by decide, by decide⟩
  have hrun := hshort.1 (by decide) run (by decide) (by decide)
  exact ⟨hrun.2.2.2, hlong.2 (by decide) (by decide) (by decide)⟩

end Session

end Bulletin
