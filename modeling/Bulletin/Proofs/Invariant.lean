import Bulletin.Proofs.Effects

/-!
# Invariant — what holds of a session at all times

A session keeps what it knows twice: the table has an entry for every publication, the summary has
the ids on offer. This file proves that the two agree, and that the flags of an entry tell a
possible life, after any calls in any order and whatever times they are given:

* `Entry.Sound` — what holds of one entry under its id;
* `Session.Consistent` — every entry is sound, the summary is the set of active entries, and a closed
  session owes no receipt;
* `Session.Consistent.perform` and `Session.Consistent.after` — one call, and any run.

The times of the calls are arbitrary: they may repeat, jump and go back.
-/

namespace Bulletin

/-! ## One entry -/

/-- What holds of an entry under its id. -/
structure Entry.Sound (id : PublicationId) (e : Entry) : Prop where
  keyed : e.publication.id = id
  retired : e.active = false → e.expired = true
  owed : e.receipt.isSome = true → e.own = true ∧ e.expired = false
  stamped : e.own = true → e.publication.timestamp? = some e.arrived

namespace Entry

variable {id : PublicationId} {e e' : Entry}

theorem Sound.settled (h : e.Sound id) : e.settled.Sound id where
  keyed := h.keyed
  retired := h.retired
  owed := by simp [Entry.settled]
  stamped := h.stamped

/-- The lifetime is the first deadline: what leaves the summary has expired, and what has not expired
keeps its receipt. -/
theorem Sound.aged {w : Window} {now : Timestamp} (h : e.Sound id)
    (haged : e.aged w now = some e') : e'.Sound id := by
  have hfields := aged_eq_some haged
  have hpublication : e'.publication = e.publication := by rw [hfields]
  have hown : e'.own = e.own := by rw [hfields]
  have harrived : e'.arrived = e.arrived := by rw [hfields]
  refine ⟨hpublication ▸ h.keyed, ?_, ?_, ?_⟩
  · intro hinactive
    have hactive := active_of_aged haged
    rw [hinactive] at hactive
    rw [expired_of_aged haged]
    by_cases hdue : e.arrived.after w.horizon ≤ now
    · have hfirst : e.arrived.after w.lifetime ≤ e.arrived.after w.horizon :=
        Timestamp.after_mono (Nat.le_refl _) w.lifetime_le_horizon
      exact Or.inr (Nat.le_trans hfirst hdue)
    · cases hold : e.active with
      | false => exact Or.inl (h.retired hold)
      | true =>
          have hstill := hactive.mpr ⟨hold, hdue⟩
          cases hstill
  · intro hsome
    rcases Option.isSome_iff_exists.mp hsome with ⟨label, hlabel⟩
    rcases (receipt_of_aged haged).mp hlabel with ⟨hreceipt, hlives⟩
    rcases h.owed (by simp [hreceipt]) with ⟨hisOwn, hunexpired⟩
    refine ⟨hown ▸ hisOwn, ?_⟩
    rw [hfields]
    simp [hunexpired, hlives]
  · intro hisOwn
    rw [hpublication, harrived]
    exact h.stamped (hown ▸ hisOwn)

theorem sound_published (name : Name) (payload : Bytes) (now : Timestamp)
    (receipt : Option String) :
    (Entry.arrival (.stamped name now payload) true now receipt).Sound
      (Publication.stamped name now payload).id where
  keyed := rfl
  retired := by simp [arrival]
  owed := by simp [arrival]
  stamped := fun _ => Publication.timestamp?_stamped name now payload

theorem sound_received (p : Publication) (now : Timestamp) :
    (Entry.arrival p false now none).Sound p.id where
  keyed := rfl
  retired := by simp [arrival]
  owed := by simp [arrival]
  stamped := by simp [arrival]

end Entry

/-! ## Table and summary -/

/-- The summary is the set of ids whose entries are active. -/
def Table.OfferedBy (t : Table) (summary : Summary) : Prop :=
  ∀ id, id ∈ summary.ids ↔ ∃ e, t.find? id = some e ∧ e.active = true

namespace Table.OfferedBy

variable {t : Table} {summary : Summary}

theorem insert (h : t.OfferedBy summary) (id : PublicationId) {e : Entry} (hactive : e.active = true) :
    (t.insert id e).OfferedBy (summary.insert id) := by
  intro other
  rw [Summary.mem_insert, find?_insert]
  by_cases hid : other = id
  · simp [hid, hactive]
  · simpa [hid] using h other

theorem mapEntries (h : t.OfferedBy summary) {f : PublicationId → Entry → Entry}
    (hactive : ∀ id e, (f id e).active = e.active) : (t.mapEntries f).OfferedBy summary := by
  intro id
  rw [h id, find?_mapEntries]
  constructor
  · rintro ⟨e, hfind, hon⟩
    exact ⟨f id e, by simp [hfind], by rw [hactive, hon]⟩
  · rintro ⟨e', hfind, hon⟩
    rcases Option.map_eq_some_iff.mp hfind with ⟨e, hold, rfl⟩
    exact ⟨e, hold, by rw [← hactive id e, hon]⟩

end Table.OfferedBy

namespace Session

/-- The timers take an id from the summary exactly when its entry stops being active or is
forgotten. -/
theorem offered_advance {s : Session} (h : s.table.OfferedBy s.summary) (now : Timestamp) :
    (s.advance now).session.table.OfferedBy (s.advance now).session.summary := by
  intro id
  have hsummary : id ∈ (s.advance now).session.summary.ids ↔
      id ∈ s.summary.ids ∧ id ∉ s.idsWhere (·.unpublishes s.config.window now) :=
    Summary.mem_eraseAll
  rw [hsummary, mem_idsWhere_iff, find?_advance, h id]
  constructor
  · rintro ⟨⟨e, hfind, hactive⟩, hkept⟩
    have hstays : e.unpublishes s.config.window now = false := by
      cases hleaves : e.unpublishes s.config.window now with
      | false => rfl
      | true => exact absurd ⟨e, hfind, hleaves⟩ hkept
    cases haged : e.aged s.config.window now with
    | none =>
        -- Forgetting also unpublishes.
        have hforgotten := Entry.isForgotten_iff.mpr (Entry.aged_eq_none_iff.mp haged)
        simp [Entry.unpublishes, hactive, hforgotten] at hstays
    | some e' =>
        refine ⟨e', by simp [hfind, haged], ?_⟩
        rw [Entry.aged_eq_some haged]
        simp [hactive, hstays]
  · rintro ⟨e', hfind, hactive⟩
    rcases Option.bind_eq_some_iff.mp hfind with ⟨e, hold, haged⟩
    rw [Entry.aged_eq_some haged] at hactive
    simp only [Bool.and_eq_true, Bool.not_eq_true'] at hactive
    refine ⟨⟨e, hold, hactive.1⟩, ?_⟩
    rintro ⟨other, hother, hleaves⟩
    rw [hold] at hother
    cases hother
    rw [hactive.2] at hleaves
    cases hleaves

theorem offered_receiveOne {s : Session} (h : s.table.OfferedBy s.summary) (p : Publication)
    (now : Timestamp) :
    (s.receiveOne p now).session.table.OfferedBy (s.receiveOne p now).session.summary := by
  rcases s.session_receiveOne p now with hsame | hstored
  · rw [hsame]
    exact h
  · rw [hstored]
    exact h.insert p.id rfl

theorem offered_receiveEach {s : Session} (h : s.table.OfferedBy s.summary)
    (publications : List Publication) (now : Timestamp) :
    (s.receiveEach publications now).session.table.OfferedBy
      (s.receiveEach publications now).session.summary :=
  receiveEach_induction (P := fun t => t.table.OfferedBy t.summary)
    (fun _ p ht => offered_receiveOne ht p now) h publications

theorem offered_confirm {s : Session} (h : s.table.OfferedBy s.summary) (peer : Summary) :
    (s.confirm peer).session.table.OfferedBy (s.confirm peer).session.summary := by
  refine h.mapEntries ?_
  intro id e
  split
  · rfl
  · rfl

theorem offered_perform {s : Session} (h : s.table.OfferedBy s.summary) (call : Call) :
    (s.perform call).session.table.OfferedBy (s.perform call).session.summary := by
  cases call with
  | publish name payload now receipt =>
      simp only [perform, publish, Step.discard]
      split
      · exact h
      · split
        · exact h
        · exact h.insert _ rfl
  | subscribe topic => exact h
  | subscribeUri topic =>
      simp only [perform, subscribeUri, Step.discard]
      split
      · exact h
      · exact h
  | receive publications now =>
      simp only [perform, receive, Step.discard]
      split
      · exact h
      · exact offered_receiveEach h publications now
  | answerPeer peer now =>
      cases hclosed : s.closed with
      | true => simpa [perform, Step.discard, answerPeer, hclosed] using h
      | false =>
          simp only [perform, Step.discard, session_answerPeer hclosed peer now]
          exact offered_confirm (offered_advance h now) peer
  | advance now => exact offered_advance h now
  | close =>
      simp only [perform, close]
      split
      · exact h
      · exact h.mapEntries fun id e => rfl
  | cancel token => exact h

/-! ## Whole sessions -/

/-- What holds of a session at all times. -/
structure Consistent (s : Session) : Prop where
  /-- Every key of the table is the id of the publication stored under it. -/
  keyed : ∀ id e, s.table.find? id = some e → e.publication.id = id
  /-- The summary is the set of ids whose entries are active. -/
  offered : ∀ id, id ∈ s.summary.ids ↔ ∃ e, s.table.find? id = some e ∧ e.active = true
  /-- What is not active has expired. -/
  retired : ∀ id e, s.table.find? id = some e → e.active = false → e.expired = true
  /-- A receipt is owed for own, unexpired publications of an open session only. -/
  owed : ∀ id e, s.table.find? id = some e → e.receipt.isSome = true →
    e.own = true ∧ e.expired = false ∧ s.closed = false
  /-- Own publications are stamped with the time of their arrival. -/
  stamped : ∀ id e, s.table.find? id = some e → e.own = true →
    e.publication.timestamp? = some e.arrived

namespace Consistent

variable {s : Session}

theorem sound (h : s.Consistent) {id : PublicationId} {e : Entry}
    (hfind : s.table.find? id = some e) : e.Sound id where
  keyed := h.keyed id e hfind
  retired := h.retired id e hfind
  owed := fun hsome => ⟨(h.owed id e hfind hsome).1, (h.owed id e hfind hsome).2.1⟩
  stamped := h.stamped id e hfind

theorem quiet (h : s.Consistent) (hclosed : s.closed = true) {id : PublicationId} {e : Entry}
    (hfind : s.table.find? id = some e) : e.receipt = none := by
  cases hreceipt : e.receipt with
  | none => rfl
  | some label =>
      have hopen := (h.owed id e hfind (by simp [hreceipt])).2.2
      rw [hclosed] at hopen
      cases hopen

theorem of_sound (hsound : ∀ id e, s.table.find? id = some e → e.Sound id)
    (hoffered : s.table.OfferedBy s.summary)
    (hquiet : s.closed = true → ∀ id e, s.table.find? id = some e → e.receipt = none) :
    s.Consistent where
  keyed := fun id e hfind => (hsound id e hfind).keyed
  offered := hoffered
  retired := fun id e hfind => (hsound id e hfind).retired
  owed := by
    intro id e hfind hsome
    rcases (hsound id e hfind).owed hsome with ⟨hown, hunexpired⟩
    refine ⟨hown, hunexpired, ?_⟩
    cases hclosed : s.closed with
    | false => rfl
    | true =>
        rw [hquiet hclosed id e hfind] at hsome
        cases hsome
  stamped := fun id e hfind => (hsound id e hfind).stamped

theorem fresh (config : SessionConfig) (policy : Policy) :
    (Session.fresh config policy).Consistent := by
  refine of_sound ?_ ?_ ?_
  · intro id e hfind
    cases hfind
  · intro id
    constructor
    · intro hmem
      cases hmem
    · rintro ⟨e, hfind, -⟩
      cases hfind
  · intro hclosed
    cases hclosed

theorem perform (h : s.Consistent) (call : Call) : (s.perform call).session.Consistent := by
  refine of_sound ?_ (offered_perform h.offered call) ?_
  · refine entries_perform (fun id e hfind => h.sound hfind) ?_ ?_ ?_ ?_
    · intro now _ id e e' hsound haged
      exact hsound.aged haged
    · intro id e hsound
      exact hsound.settled
    · intro name payload now receipt _ _
      exact Entry.sound_published name payload now receipt
    · intro publications now p _ _ _ _
      exact Entry.sound_received p now
  · intro hclosed
    -- Either the session was closed before, or this call closes it and settles every entry.
    rcases (s.settings_perform call).2.2.mp hclosed with hbefore | rfl
    · refine entries_perform (fun id e hfind => h.quiet hbefore hfind) ?_ ?_ ?_ ?_
      · intro now _ id e e' hnone haged
        rw [Entry.aged_eq_some haged]
        simp [hnone]
      · intro id e _
        rfl
      · intro name payload now receipt _ hopen
        rw [hbefore] at hopen
        cases hopen
      · intro publications now p _ _ _ _
        rfl
    · intro id e hfind
      rw [find?_perform] at hfind
      simp only [entryAfter] at hfind
      split at hfind
      · rename_i hbefore
        exact h.quiet hbefore hfind
      · rcases Option.map_eq_some_iff.mp hfind with ⟨old, _, rfl⟩
        rfl

theorem after (h : s.Consistent) (calls : List Call) : (s.after calls).Consistent :=
  after_induction (fun _ call ht => ht.perform call) h calls

end Consistent

theorem openWith_eq_ok {config : SessionConfig} {policy : Policy} {s : Session}
    (hopen : openWith config policy = .ok s) : config.fault? = none ∧ s = fresh config policy := by
  unfold openWith at hopen
  split at hopen
  · cases hopen
  · rename_i hfault
    cases hopen
    exact ⟨hfault, rfl⟩

theorem Consistent.of_openWith {config : SessionConfig} {policy : Policy} {s : Session}
    (hopen : openWith config policy = .ok s) (calls : List Call) : (s.after calls).Consistent := by
  rcases openWith_eq_ok hopen with ⟨-, rfl⟩
  exact (Consistent.fresh config policy).after calls

/-- A run keeps the settings that the session was opened with. -/
theorem settings_of_openWith {config : SessionConfig} {policy : Policy} {s : Session}
    (hopen : openWith config policy = .ok s) (calls : List Call) :
    (s.after calls).config = config ∧ (s.after calls).policy = policy := by
  rcases openWith_eq_ok hopen with ⟨-, rfl⟩
  exact settings_after (fresh config policy) calls

/-- A usable configuration makes a session with any policy, and no run makes it inconsistent. With
the lifecycle policy this is `openDefault`. -/
theorem consistent_in_every_run (config : SessionConfig) (policy : Policy)
    (hvalid : config.fault? = none) :
    ∃ s, openWith config policy = .ok s ∧ ∀ calls, (s.after calls).Consistent := by
  have hopen : openWith config policy = .ok (fresh config policy) := by
    simp [openWith, hvalid]
  exact ⟨fresh config policy, hopen, Consistent.of_openWith hopen⟩

/-- A skew longer than the lifetime: entries are forgotten before their horizon. -/
theorem consistent_in_every_run_long_skew :
    let config : SessionConfig := { window := { lifetime := .ofMillis 100, skew := .ofMillis 500 } }
    config.fault? = none ∧
      ∃ s, openDefault config = .ok s ∧ ∀ calls, (s.after calls).Consistent :=
  ⟨by decide, consistent_in_every_run _ _ (by decide)⟩

end Session

end Bulletin
