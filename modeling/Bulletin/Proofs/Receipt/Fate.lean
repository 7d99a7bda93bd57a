import Bulletin.Proofs.Invariant
import Bulletin.Proofs.Receipt.Events
import Mathlib.Logic.ExistsUnique

/-!
# Every receipt is settled exactly once

A publisher may ask for a receipt, which names the label it was asked for under. Three calls can
settle it: the timers when the publication expires, an answer when the peer has the publication, and
closing, which drops it. A label stands for one receipt, so it is handed over in one call of the run.

* `Session.Owes` and `Session.Free` — the receipt is in the entry of its publication, or nowhere;
* `Session.Owes.perform` — what one call does to a receipt that is owed;
* `Fate` — what can have become of a receipt after a run;
* `Session.receipt_settled_once` — there is exactly one fate at every point of every run.
-/

namespace Bulletin

namespace Session

variable {s : Session} {label : String}

/-! ## Where a receipt is -/

def Free (s : Session) (label : String) : Prop :=
  ∀ id e, s.table.find? id = some e → e.receipt ≠ some label

/-- The entry of `p`, which arrived at `t`, holds the receipt, and no other entry does. -/
structure Owes (s : Session) (label : String) (p : Publication) (t : Timestamp) : Prop where
  held : ∃ e, s.table.find? p.id = some e ∧ e.receipt = some label ∧ e.publication = p ∧
    e.arrived = t
  only : ∀ id e, s.table.find? id = some e → e.receipt = some label → id = p.id

/-- A call that does not bring the receipt does not spread it. -/
theorem holders_perform {holder : PublicationId → Prop} (call : Call)
    (h : ∀ id e, s.table.find? id = some e → e.receipt = some label → holder id)
    (hother : call.receipt? ≠ some label) :
    ∀ id e, (s.perform call).session.table.find? id = some e → e.receipt = some label →
      holder id := by
  refine entries_perform (Q := fun id e => e.receipt = some label → holder id) h ?_ ?_ ?_ ?_
  · intro now _ id e e' hheld haged hreceipt
    exact hheld ((Entry.receipt_of_aged haged).mp hreceipt).1
  · intro id e _ hreceipt
    cases hreceipt
  · intro name payload now receipt hcall _ hreceipt
    subst hcall
    exact absurd hreceipt hother
  · intro publications now p _ _ _ _ hreceipt
    cases hreceipt

theorem holders_confirm {holder : PublicationId → Prop} (peer : Summary)
    (h : ∀ id e, s.table.find? id = some e → e.receipt = some label → holder id) :
    ∀ id e, (s.confirm peer).session.table.find? id = some e → e.receipt = some label →
      holder id := by
  intro id e hfind hreceipt
  rw [find?_confirm] at hfind
  rcases Option.map_eq_some_iff.mp hfind with ⟨old, hold, rfl⟩
  exact h id old hold (Entry.receipt_of_afterConfirm hreceipt).1

namespace Free

/-- Rows that do not hold the receipt do not give it. -/
theorem receipts_rows (h : s.Free label) {test : PublicationId → Entry → Bool} {verdict : Bool}
    {events : List Event}
    (hgiven : Event.given events = (s.owedWhere test).map fun r => (r.1, r.2, verdict)) :
    Event.receipts label events = [] := by
  rw [receipts_of_rows hgiven, List.filterMap_eq_nil_iff]
  rintro ⟨id, e⟩ hmem
  exact if_neg fun hholds => h id e (Table.mem_byId_iff.mp hmem) hholds.1

theorem advance (h : s.Free label) (now : Timestamp) : (s.advance now).session.Free label :=
  holders_perform (.advance now) h (by simp [Call.receipt?])

theorem perform (h : s.Free label) {call : Call} (hother : call.receipt? ≠ some label) :
    (s.perform call).session.Free label ∧ Event.receipts label (s.perform call).events = [] := by
  refine ⟨holders_perform call h hother, ?_⟩
  cases call with
  | advance now => exact h.receipts_rows (s.given_advance now)
  | answerPeer peer now =>
      cases hclosed : s.closed with
      | true => simp [Session.perform, Step.discard, answerPeer, hclosed, Event.receipts, Event.given]
      | false =>
          have hevents := Event.receipts_of_given_append (given_answerPeer hclosed peer now) label
          rw [h.receipts_rows (s.given_advance now),
            (h.advance now).receipts_rows (given_confirm _ peer)] at hevents
          exact hevents
  | publish | subscribe | subscribeUri | receive | close | cancel =>
      exact Event.receipts_eq_nil (s.given_perform_eq_nil (by simp) (by simp)) label

/-- A receipt that no entry holds and no call brings is never given. -/
theorem after (h : s.Free label) {calls : List Call}
    (hother : ∀ call ∈ calls, call.receipt? ≠ some label) :
    (s.after calls).Free label ∧ Event.receipts label (s.history calls) = [] := by
  induction calls generalizing s with
  | nil => exact ⟨h, rfl⟩
  | cons call rest ih =>
      rcases h.perform (hother call List.mem_cons_self) with ⟨hfree, hnone⟩
      rcases ih hfree fun later hmem => hother later (List.mem_cons_of_mem call hmem) with
        ⟨hlast, hrest⟩
      refine ⟨hlast, ?_⟩
      rw [history_cons, Event.receipts_append, hnone, hrest]
      rfl

end Free

/-! ## One call and a receipt that is owed -/

namespace Owes

variable {p : Publication} {t : Timestamp}

/-- The entry that holds the receipt belongs to an open session and can still be confirmed. -/
theorem entry (hc : s.Consistent) (h : s.Owes label p t) :
    ∃ e, s.table.find? p.id = some e ∧ e.receipt = some label ∧ e.publication = p ∧
      e.arrived = t ∧ e.own = true ∧ e.expired = false ∧ s.closed = false := by
  rcases h.held with ⟨e, hfind, hreceipt, hpublication, harrived⟩
  rcases hc.owed p.id e hfind (by simp [hreceipt]) with ⟨hown, hunexpired, hopen⟩
  exact ⟨e, hfind, hreceipt, hpublication, harrived, hown, hunexpired, hopen⟩

/-- The row that holds the receipt gives it, if it passes. -/
theorem receipts_rows (h : s.Owes label p t) {e : Entry} (hfind : s.table.find? p.id = some e)
    (hreceipt : e.receipt = some label) (hpublication : e.publication = p)
    {test : PublicationId → Entry → Bool} {verdict : Bool} {events : List Event}
    (hgiven : Event.given events = (s.owedWhere test).map fun r => (r.1, r.2, verdict)) :
    Event.receipts label events = if test p.id e = true then [(p, verdict)] else [] := by
  rw [receipts_of_rows hgiven, Table.filterMap_byId_of_only hfind]
  · cases test p.id e with
    | true => simp [hreceipt, hpublication]
    | false => simp
  · intro other e' hother hne
    exact if_neg fun hholds => hne (h.only other e' hother hholds.1)

/-- Before the lifetime is over the timers leave the receipt where it is. -/
theorem advance_early (hc : s.Consistent) (h : s.Owes label p t) {now : Timestamp}
    (hearly : ¬ t.after s.config.window.lifetime ≤ now) :
    (s.advance now).session.Owes label p t ∧
      Event.receipts label (s.advance now).events = [] := by
  rcases h.entry hc with ⟨e, hfind, hreceipt, hpublication, rfl, hown, hunexpired, hopen⟩
  have hstays : e.expires s.config.window now = false := by
    simpa [Entry.expires, hunexpired] using hearly
  -- The entry is not forgotten either, as the lifetime is the first deadline.
  have hkept : ∃ e', e.aged s.config.window now = some e' := by
    rw [← Option.isSome_iff_exists, Option.isSome_iff_ne_none, ne_eq, Entry.aged_eq_none_iff]
    intro hforgotten
    have hfirst : e.arrived.after s.config.window.lifetime ≤
        e.arrived.after s.config.window.lifetime.double :=
      Timestamp.after_mono (Nat.le_refl _) s.config.window.lifetime_le_double
    exact hearly (Nat.le_trans hfirst hforgotten)
  rcases hkept with ⟨e', haged⟩
  refine ⟨⟨⟨e', ?_, (Entry.receipt_of_aged haged).mpr ⟨hreceipt, hstays⟩, ?_, ?_⟩, ?_⟩, ?_⟩
  · simp [find?_advance, hfind, haged]
  · rw [Entry.aged_eq_some haged]
    exact hpublication
  · rw [Entry.aged_eq_some haged]
  · exact holders_perform (.advance now) h.only (by simp [Call.receipt?])
  · rw [h.receipts_rows hfind hreceipt hpublication (s.given_advance now), hstays]
    rfl

/-- Once the lifetime is over the timers say that the publication is lost. -/
theorem advance_late (hc : s.Consistent) (h : s.Owes label p t) {now : Timestamp}
    (hlate : t.after s.config.window.lifetime ≤ now) :
    (s.advance now).session.Free label ∧
      Event.receipts label (s.advance now).events = [(p, false)] := by
  rcases h.entry hc with ⟨e, hfind, hreceipt, hpublication, rfl, hown, hunexpired, hopen⟩
  have hexpires : e.expires s.config.window now = true := Entry.expires_iff.mpr ⟨hunexpired, hlate⟩
  constructor
  · intro id e' hfind' hreceipt'
    rw [find?_advance] at hfind'
    rcases Option.bind_eq_some_iff.mp hfind' with ⟨old, hold, haged⟩
    rcases (Entry.receipt_of_aged haged).mp hreceipt' with ⟨hheld, hstays⟩
    have hid : id = p.id := h.only id old hold hheld
    subst hid
    rw [hfind] at hold
    cases hold
    rw [hexpires] at hstays
    cases hstays
  · rw [h.receipts_rows hfind hreceipt hpublication (s.given_advance now), hexpires]
    rfl

theorem receipts_confirm (hc : s.Consistent) (h : s.Owes label p t) (peer : Summary) :
    Event.receipts label (s.confirm peer).events =
      if p.id ∈ peer.ids then [(p, true)] else [] := by
  rcases h.entry hc with ⟨e, hfind, hreceipt, hpublication, harrived, hown, hunexpired, hopen⟩
  rw [h.receipts_rows hfind hreceipt hpublication (s.given_confirm peer)]
  simp [Entry.isConfirmedBy, hreceipt, hown, hunexpired, Summary.contains_iff]

/-- A peer that has the publication settles the receipt. -/
theorem confirm_seen (hc : s.Consistent) (h : s.Owes label p t) {peer : Summary}
    (hseen : p.id ∈ peer.ids) : (s.confirm peer).session.Free label := by
  rcases h.entry hc with ⟨e, hfind, hreceipt, hpublication, harrived, hown, hunexpired, hopen⟩
  intro id e' hfind' hreceipt'
  rw [find?_confirm] at hfind'
  rcases Option.map_eq_some_iff.mp hfind' with ⟨old, hold, rfl⟩
  rcases Entry.receipt_of_afterConfirm hreceipt' with ⟨hheld, hunconfirmed⟩
  have hid : id = p.id := h.only id old hold hheld
  subst hid
  rw [hfind] at hold
  cases hold
  simp [Entry.isConfirmedBy, hreceipt, hown, hunexpired, Summary.contains, hseen] at hunconfirmed

/-- A peer that lacks it leaves the receipt where it is. -/
theorem confirm_unseen (h : s.Owes label p t) {peer : Summary} (hunseen : p.id ∉ peer.ids) :
    (s.confirm peer).session.Owes label p t := by
  rcases h.held with ⟨e, hfind, hreceipt, hpublication, harrived⟩
  have hsame : e.afterConfirm p.id peer = e := by
    simp [Entry.afterConfirm, Entry.isConfirmedBy, Summary.contains, hunseen]
  refine ⟨⟨e, ?_, hreceipt, hpublication, harrived⟩, holders_confirm peer h.only⟩
  simp [find?_confirm, hfind, hsame]

end Owes

end Session

/-! ## What becomes of a receipt -/

inductive Fate where
  /-- It is still owed. -/
  | pending
  /-- A peer was seen to have the publication. -/
  | confirmed
  /-- The publication expired first. -/
  | lost
  /-- The session was closed first. -/
  | dropped
  deriving DecidableEq, Repr

/-- The receipt is in the entry of its publication, which is own and has not expired. -/
def Session.Pending (s : Session) (label : String) (p : Publication) : Prop :=
  ∃ e, s.table.find? p.id = some e ∧ e.receipt = some label ∧ e.own = true ∧ e.expired = false

namespace Fate

def receipts (p : Publication) : Fate → List (Publication × Bool)
  | confirmed => [(p, true)]
  | lost => [(p, false)]
  | _ => []

/-- The call of the session `s` that settles the receipt of `p`, published at `t`: an answer to a peer
that has `p`, a run of the timers past the lifetime, alone or at the start of an answer, or closing. -/
def SettledBy (s : Session) (label : String) (p : Publication) (t : Timestamp) :
    Fate → Call → Prop
  | confirmed, .answerPeer peer _ => p.id ∈ peer.ids
  | lost, .advance now =>
      t.after s.config.window.lifetime ≤ now ∧
        Event.receipts label (s.advance now).events = [(p, false)]
  | lost, .answerPeer _ now =>
      t.after s.config.window.lifetime ≤ now ∧
        Event.receipts label (s.advance now).events = [(p, false)]
  | dropped, .close => True
  | _, _ => False

/-- The fate of the receipt after the calls `later`, which `s` made since it published `p` at `t`. -/
def Holds (s : Session) (label : String) (p : Publication) (t : Timestamp) (later : List Call) :
    Fate → Prop
  | pending =>
      Event.receipts label (s.history later) = [] ∧ (s.after later).Pending label p
  | fate =>
      Event.receipts label (s.history later) = fate.receipts p ∧
        (s.after later).Free label ∧
        ∃ earlier call rest, later = earlier ++ call :: rest ∧
          (s.after earlier).Pending label p ∧
          fate.SettledBy (s.after earlier) label p t call ∧
          Event.receipts label ((s.after earlier).perform call).events = fate.receipts p

end Fate

namespace Session.Owes

variable {s : Session} {label : String} {p : Publication} {t : Timestamp}

theorem pending (hc : s.Consistent) (h : s.Owes label p t) : s.Pending label p := by
  rcases h.entry hc with ⟨e, hfind, hreceipt, -, -, hown, hunexpired, -⟩
  exact ⟨e, hfind, hreceipt, hown, hunexpired⟩

/-- An answer runs the timers first, so what is late is lost even if the peer has it. -/
theorem answerPeer (hc : s.Consistent) (h : s.Owes label p t) (peer : Summary) (now : Timestamp) :
    let step := s.perform (.answerPeer peer now)
    (step.session.Owes label p t ∧ Event.receipts label step.events = []) ∨
      (step.session.Free label ∧ ∃ fate : Fate,
        fate.SettledBy s label p t (.answerPeer peer now) ∧
          Event.receipts label step.events = fate.receipts p) := by
  rcases h.entry hc with ⟨-, -, -, -, -, -, -, hopen⟩
  have hsession : (s.perform (.answerPeer peer now)).session =
      ((s.advance now).session.confirm peer).session := session_answerPeer hopen peer now
  have hevents : Event.receipts label (s.perform (.answerPeer peer now)).events =
      Event.receipts label (s.advance now).events ++
        Event.receipts label ((s.advance now).session.confirm peer).events :=
    Event.receipts_of_given_append (given_answerPeer hopen peer now) label
  by_cases hdue : t.after s.config.window.lifetime ≤ now
  · rcases h.advance_late hc hdue with ⟨hfree, hlost⟩
    right
    refine ⟨?_, Fate.lost, ⟨hdue, hlost⟩, ?_⟩
    · rw [hsession]
      exact holders_confirm peer hfree
    · rw [hevents, hlost, hfree.receipts_rows (given_confirm _ peer)]
      rfl
  · rcases h.advance_early hc hdue with ⟨howes, hnone⟩
    have hc' : (s.advance now).session.Consistent := hc.perform (.advance now)
    have hconfirm := howes.receipts_confirm hc' peer
    by_cases hseen : p.id ∈ peer.ids
    · right
      refine ⟨?_, Fate.confirmed, hseen, ?_⟩
      · rw [hsession]
        exact howes.confirm_seen hc' hseen
      · rw [hevents, hnone, hconfirm, if_pos hseen]
        rfl
    · left
      refine ⟨?_, ?_⟩
      · rw [hsession]
        exact howes.confirm_unseen hseen
      · rw [hevents, hnone, hconfirm, if_neg hseen]
        rfl

/-- What one call does to a receipt that is owed: it stays, or it is settled and gone. -/
theorem perform (hc : s.Consistent) (h : s.Owes label p t) {call : Call}
    (hother : call.receipt? ≠ some label) :
    ((s.perform call).session.Owes label p t ∧
        Event.receipts label (s.perform call).events = []) ∨
      ((s.perform call).session.Free label ∧ ∃ fate : Fate, fate.SettledBy s label p t call ∧
        Event.receipts label (s.perform call).events = fate.receipts p) := by
  rcases h.entry hc with ⟨e, hfind, hreceipt, hpublication, harrived, hown, hunexpired, hopen⟩
  have hstays (hsame : s.entryAfter p.id call = some e) : (s.perform call).session.Owes label p t :=
    ⟨⟨e, (s.find?_perform call p.id).trans hsame, hreceipt, hpublication, harrived⟩,
      holders_perform call h.only hother⟩
  have hnone (hadvance : ∀ now, call ≠ .advance now)
      (hanswer : ∀ peer now, call ≠ .answerPeer peer now) :
      Event.receipts label (s.perform call).events = [] :=
    Event.receipts_eq_nil (s.given_perform_eq_nil hadvance hanswer) label
  cases call with
  | answerPeer peer now => exact h.answerPeer hc peer now
  | advance now =>
      by_cases hdue : t.after s.config.window.lifetime ≤ now
      · rcases h.advance_late hc hdue with ⟨hfree, hlost⟩
        exact Or.inr ⟨hfree, Fate.lost, ⟨hdue, hlost⟩, hlost⟩
      · exact Or.inl (h.advance_early hc hdue)
  | close =>
      refine Or.inr ⟨?_, Fate.dropped, trivial, hnone (by simp) (by simp)⟩
      intro id e' hfind' hreceipt'
      rw [find?_perform] at hfind'
      simp only [entryAfter, hopen, Bool.false_eq_true, if_false] at hfind'
      rcases Option.map_eq_some_iff.mp hfind' with ⟨old, -, rfl⟩
      cases hreceipt'
  | publish | receive =>
      exact Or.inl ⟨hstays (by simp [entryAfter, hfind]), hnone (by simp) (by simp)⟩
  | subscribe | subscribeUri | cancel =>
      exact Or.inl ⟨hstays hfind, hnone (by simp) (by simp)⟩

end Session.Owes

/-! ## Whole runs -/

namespace Fate

variable {s : Session} {label : String} {p : Publication} {t : Timestamp}

theorem Holds.receipts_eq {later : List Call} {fate : Fate} (h : fate.Holds s label p t later) :
    Event.receipts label (s.history later) = fate.receipts p := by
  cases fate with
  | pending | confirmed | lost | dropped => exact h.1

/-- A fate is told by what happened to the receipt, so there is one at most. -/
theorem eq_of_holds {later : List Call} {f g : Fate} (hf : f.Holds s label p t later)
    (hg : g.Holds s label p t later) : f = g := by
  -- Only `pending` and `dropped` give the same receipts, none; an entry holds the pending one.
  have hexclusive : pending.Holds s label p t later → ¬ dropped.Holds s label p t later := by
    rintro ⟨-, e, hfind, hreceipt, -⟩ ⟨-, hfree, -⟩
    exact hfree p.id e hfind hreceipt
  have hsame := hf.receipts_eq.symm.trans hg.receipts_eq
  cases f with
  | pending =>
      cases g with
      | pending => rfl
      | confirmed => simp [receipts] at hsame
      | lost => simp [receipts] at hsame
      | dropped => exact absurd hg (hexclusive hf)
  | confirmed =>
      cases g with
      | confirmed => rfl
      | pending => simp [receipts] at hsame
      | lost => simp [receipts] at hsame
      | dropped => simp [receipts] at hsame
  | lost =>
      cases g with
      | lost => rfl
      | pending => simp [receipts] at hsame
      | confirmed => simp [receipts] at hsame
      | dropped => simp [receipts] at hsame
  | dropped =>
      cases g with
      | dropped => rfl
      | pending => exact absurd hf (hexclusive hg)
      | confirmed => simp [receipts] at hsame
      | lost => simp [receipts] at hsame

/-- A call that leaves the receipt alone can be put in front. -/
theorem Holds.cons {fate : Fate} {call : Call} {rest : List Call}
    (hnone : Event.receipts label (s.perform call).events = [])
    (h : fate.Holds (s.perform call).session label p t rest) :
    fate.Holds s label p t (call :: rest) := by
  have hhistory : Event.receipts label (s.history (call :: rest)) =
      Event.receipts label ((s.perform call).session.history rest) := by
    rw [Session.history_cons, Event.receipts_append, hnone, List.nil_append]
  cases fate with
  | pending => exact ⟨hhistory.trans h.1, h.2⟩
  | confirmed =>
      rcases h with ⟨hgiven, hfree, earlier, settling, last, rfl, hrest⟩
      exact ⟨hhistory.trans hgiven, hfree, call :: earlier, settling, last, rfl, hrest⟩
  | lost =>
      rcases h with ⟨hgiven, hfree, earlier, settling, last, rfl, hrest⟩
      exact ⟨hhistory.trans hgiven, hfree, call :: earlier, settling, last, rfl, hrest⟩
  | dropped =>
      rcases h with ⟨hgiven, hfree, earlier, settling, last, rfl, hrest⟩
      exact ⟨hhistory.trans hgiven, hfree, call :: earlier, settling, last, rfl, hrest⟩

end Fate

/-- By induction over the run: as long as the receipt is owed a call keeps it or settles it, and once
it is settled no entry holds it any more. -/
theorem Session.Owes.exists_fate {s : Session} {label : String} {p : Publication} {t : Timestamp}
    (hc : s.Consistent) (h : s.Owes label p t) {later : List Call}
    (hother : ∀ call ∈ later, call.receipt? ≠ some label) :
    ∃ fate : Fate, fate.Holds s label p t later := by
  induction later generalizing s with
  | nil => exact ⟨Fate.pending, rfl, h.pending hc⟩
  | cons call rest ih =>
      have hrest : ∀ later ∈ rest, later.receipt? ≠ some label := fun later hmem =>
        hother later (List.mem_cons_of_mem call hmem)
      rcases h.perform hc (hother call List.mem_cons_self) with
        ⟨howes, hnone⟩ | ⟨hfree, fate, hsettled, hgiven⟩
      · rcases ih (hc.perform call) howes hrest with ⟨fate, hfate⟩
        exact ⟨fate, hfate.cons hnone⟩
      · rcases hfree.after hrest with ⟨hlast, hnever⟩
        have hhistory : Event.receipts label (s.history (call :: rest)) = fate.receipts p := by
          rw [history_cons, Event.receipts_append, hgiven, hnever, List.append_nil]
        have hsplit : ∃ earlier settling last, call :: rest = earlier ++ settling :: last ∧
            (s.after earlier).Pending label p ∧
            fate.SettledBy (s.after earlier) label p t settling ∧
            Event.receipts label ((s.after earlier).perform settling).events = fate.receipts p :=
          ⟨[], call, rest, rfl, h.pending hc, hsettled, hgiven⟩
        cases fate with
        | pending =>
            cases call <;> cases hsettled
        | confirmed => exact ⟨Fate.confirmed, hhistory, hlast, hsplit⟩
        | lost => exact ⟨Fate.lost, hhistory, hlast, hsplit⟩
        | dropped => exact ⟨Fate.dropped, hhistory, hlast, hsplit⟩

namespace Session

variable {s : Session} {name : Name} {payload : Bytes} {t : Timestamp} {receipt : Option String}

/-- A publication that is refused or known changes nothing. -/
theorem session_publish_of_unstored
    (h : (s.publish name payload t receipt).answer = .error .closed ∨
      ∃ id, (s.publish name payload t receipt).answer = .ok (.duplicate id)) :
    (s.publish name payload t receipt).session = s := by
  cases hclosed : s.closed with
  | true => simp [publish, hclosed]
  | false =>
      cases hknown : s.table.contains (Publication.stamped name t payload).id with
      | true => simp [publish, hclosed, hknown]
      | false => simp [publish, hclosed, hknown] at h

theorem publish_eq_published {id : PublicationId}
    (h : (s.publish name payload t receipt).answer = .ok (.published id)) :
    id = (Publication.stamped name t payload).id ∧ s.closed = false ∧
      s.table.find? (Publication.stamped name t payload).id = none := by
  cases hclosed : s.closed with
  | true => simp [publish, hclosed] at h
  | false =>
      cases hknown : s.table.contains (Publication.stamped name t payload).id with
      | true => simp [publish, hclosed, hknown] at h
      | false =>
          simp only [publish, hclosed, hknown, Bool.false_eq_true, if_false] at h
          cases h
          exact ⟨rfl, rfl, Table.contains_eq_false_iff.mp hknown⟩

/-- A publication that is stored takes its receipt with it. -/
theorem Free.publish {label : String} (h : s.Free label) {id : PublicationId}
    (hanswer : (s.publish name payload t (some label)).answer = .ok (.published id)) :
    (s.publish name payload t (some label)).session.Owes label (.stamped name t payload) t := by
  rcases publish_eq_published hanswer with ⟨-, hopen, hnew⟩
  refine ⟨⟨.arrival (.stamped name t payload) true t (some label), ?_, rfl, rfl, rfl⟩, ?_⟩
  · simp [find?_publish, hopen, hnew]
  · intro other e hfind hreceipt
    rw [find?_publish] at hfind
    rcases Option.or_eq_some_iff.mp hfind with hold | ⟨-, hstored⟩
    · exact absurd hreceipt (h other e hold)
    · split at hstored
      · rename_i hcond
        exact hcond.2.symm
      · cases hstored

/-- Forgetting a publication whose receipt is owed gives the receipt. -/
theorem Consistent.receipt_of_forgotten (hc : s.Consistent) {now : Timestamp} {id : PublicationId}
    {e : Entry} {label : String} (hfind : s.table.find? id = some e)
    (hreceipt : e.receipt = some label)
    (hforgotten : (s.advance now).session.table.find? id = none) :
    (e.publication, false) ∈ Event.receipts label (s.advance now).events := by
  rcases hc.owed id e hfind (by simp [hreceipt]) with ⟨-, hunexpired, -⟩
  have hdouble : e.arrived.after s.config.window.lifetime.double ≤ now := by
    rw [find?_advance, hfind] at hforgotten
    exact Entry.aged_eq_none_iff.mp hforgotten
  have hfirst : e.arrived.after s.config.window.lifetime ≤
      e.arrived.after s.config.window.lifetime.double :=
    Timestamp.after_mono (Nat.le_refl _) s.config.window.lifetime_le_double
  have hexpires : e.expires s.config.window now = true :=
    Entry.expires_iff.mpr ⟨hunexpired, Nat.le_trans hfirst hdouble⟩
  have howed : (label, e.publication) ∈ s.owedWhere fun _ e => e.expires s.config.window now :=
    mem_owedWhere_iff.mpr ⟨id, e, hfind, hexpires, hreceipt, rfl⟩
  rw [Event.mem_receipts_iff, given_advance]
  exact List.mem_map_of_mem howed

/-- Every receipt is settled exactly once. The label stands for the receipt: no other call of the run
is given it. What is refused or known never gives it; what is published has exactly one fate at every
later point; and no entry is forgotten while its receipt is owed and not given. -/
theorem receipt_settled_once (config : SessionConfig) (policy : Policy) (s : Session)
    (hopen : openWith config policy = .ok s) (before later : List Call) (name : Name)
    (payload : Bytes) (t : Timestamp) (label : String)
    (hunique : ∀ call ∈ before ++ later, call.receipt? ≠ some label) :
    let p := Publication.stamped name t payload
    let call := Call.publish name payload t (some label)
    let step := (s.after before).publish name payload t (some label)
    ((step.answer = .error .closed ∨ ∃ id, step.answer = .ok (.duplicate id)) →
        Event.receipts label (s.history (before ++ call :: later)) = []) ∧
      (∀ id, step.answer = .ok (.published id) →
        id = p.id ∧ Event.receipts label (s.history (before ++ [call])) = [] ∧
          ∃! fate : Fate, fate.Holds step.session label p t later) ∧
      ∀ calls now id e other, (s.after calls).table.find? id = some e → e.receipt = some other →
        ((s.after calls).advance now).session.table.find? id = none →
        (e.publication, false) ∈ Event.receipts other ((s.after calls).advance now).events := by
  intro p call step
  have hconsistent : ∀ calls, (s.after calls).Consistent := Consistent.of_openWith hopen
  have hstart : s.Free label := by
    rcases openWith_eq_ok hopen with ⟨-, rfl⟩
    intro id e hfind
    cases hfind
  rcases hstart.after fun call hmem => hunique call (List.mem_append_left later hmem) with
    ⟨hfree, hbefore⟩
  have hcall : Event.receipts label ((s.after before).perform call).events = [] :=
    Event.receipts_eq_nil (given_perform_eq_nil _ (by simp [call]) (by simp [call])) label
  have hlater : ∀ call ∈ later, call.receipt? ≠ some label := fun call hmem =>
    hunique call (List.mem_append_right before hmem)
  refine ⟨?_, ?_, ?_⟩
  · intro hunstored
    have hsame : ((s.after before).perform call).session = s.after before :=
      session_publish_of_unstored hunstored
    rw [history_append, history_cons, hsame, Event.receipts_append, Event.receipts_append, hbefore,
      hcall, (hfree.after hlater).2]
    rfl
  · intro id hanswer
    refine ⟨(publish_eq_published hanswer).1, ?_, ?_⟩
    · rw [history_append, history_cons, Event.receipts_append, Event.receipts_append, hbefore, hcall]
      rfl
    · have howes : step.session.Owes label p t := hfree.publish hanswer
      have hc : step.session.Consistent := (hconsistent before).perform call
      rcases howes.exists_fate hc hlater with ⟨fate, hfate⟩
      exact ⟨fate, hfate, fun other hholds => Fate.eq_of_holds hholds hfate⟩
  · intro calls now id e other hfind hreceipt hforgotten
    exact (hconsistent calls).receipt_of_forgotten hfind hreceipt hforgotten

/-- The first publication of a session, whose timers run past its lifetime before it is closed: it is
lost, and the publisher is told once. -/
theorem receipt_settled_once_first :
    let s := fresh {} (.lifecycle {})
    let p := Publication.stamped .root .zero []
    let step := s.publish .root [] .zero (some "first")
    let later : List Call := [.advance ⟨1000000⟩, .close]
    openDefault {} = .ok s ∧ step.answer = .ok (.published p.id) ∧
      Event.receipts "first" (step.session.history later) = [(p, false)] ∧
      Fate.lost.Holds step.session "first" p .zero later ∧
      ∃! fate : Fate, fate.Holds step.session "first" p .zero later := by
  intro s p step later
  have hmain := receipt_settled_once {} (.lifecycle {}) s rfl [] later .root [] .zero "first"
    (by simp [later, Call.receipt?])
  obtain ⟨fate, hfate, hunique⟩ := (hmain.2.1 p.id rfl).2.2
  have htold : Event.receipts "first" (step.session.history later) = [(p, false)] := by
    decide +kernel
  have hlost : fate = .lost := by
    have hsame := hfate.receipts_eq.symm.trans htold
    cases fate with
    | lost => rfl
    | pending | confirmed | dropped => simp [Fate.receipts] at hsame
  subst hlost
  exact ⟨rfl, rfl, htold, hfate, .lost, hfate, hunique⟩

end Session

end Bulletin
