import Bulletin.Proofs.Effects
import Mathlib.Data.List.Basic

/-!
# Receipts among events

A receipt is an event of the call that gives it. This file finds the receipts among the events of each
call:

* `Event.given` — the receipts among some events, and `Event.receipts`, those of one label;
* `Session.owedWhere` — the receipts that are owed for the entries that pass a test, by ascending id;
* `Session.given_advance`, `Session.given_confirm`, `Session.given_answerPeer` — the receipts of the
  timers, of a peer's summary and of an answer;
* `Session.given_perform_eq_nil` — no other call gives receipts;
* `Session.receipts_of_rows` — so a label is looked for among the rows that hold it.
-/

namespace Bulletin

/-! ## Receipts among events -/

namespace Event

variable {events : List Event} {label : String} {p : Publication} {confirmed : Bool}

/-- The receipts among some events, in order. -/
def given (events : List Event) : List (String × Publication × Bool) :=
  events.filterMap receipt?

def receipts (label : String) (events : List Event) : List (Publication × Bool) :=
  ((given events).filter (·.1 = label)).map Prod.snd

theorem given_append (first second : List Event) :
    given (first ++ second) = given first ++ given second :=
  List.filterMap_append

theorem receipts_of_given_append {first second : List Event}
    (h : given events = given first ++ given second) (label : String) :
    receipts label events = receipts label first ++ receipts label second := by
  rw [receipts, h, List.filter_append, List.map_append]
  rfl

theorem receipts_append (label : String) (first second : List Event) :
    receipts label (first ++ second) = receipts label first ++ receipts label second :=
  receipts_of_given_append (given_append first second) label

theorem given_notes (notes : List Note) : given (notes.map Event.note) = [] := by
  simp [given, receipt?]

theorem receipts_eq_nil (h : given events = []) (label : String) : receipts label events = [] := by
  rw [receipts, h]
  rfl

theorem mem_given_iff : (label, p, confirmed) ∈ given events ↔ receipt label p confirmed ∈ events := by
  rw [given, List.mem_filterMap]
  constructor
  · rintro ⟨event, hmem, hreceipt⟩
    cases event with
    | note remark => cases hreceipt
    | delivery token q => cases hreceipt
    | receipt other q verdict =>
        cases hreceipt
        exact hmem
  · intro hmem
    exact ⟨_, hmem, rfl⟩

theorem mem_receipts_iff :
    (p, confirmed) ∈ receipts label events ↔ (label, p, confirmed) ∈ given events := by
  simp [receipts]

end Event

namespace Entry

def owes? (e : Entry) : Option (String × Publication) :=
  e.receipt.map fun label => (label, e.publication)

theorem given_lossEvents (e : Entry) (w : Window) (now : Timestamp) :
    Event.given (e.lossEvents w now) =
      ((if e.expires w now then e.owes? else none).map fun r => (r.1, r.2, false)).toList := by
  unfold lossEvents owes?
  cases e.receipt with
  | none => simp [Event.given]
  | some label =>
      cases e.expires w now with
      | true => rfl
      | false => rfl

theorem given_confirmEvents (e : Entry) (id : PublicationId) (peer : Summary) :
    Event.given (e.confirmEvents id peer) =
      ((if e.isConfirmedBy id peer then e.owes? else none).map fun r => (r.1, r.2, true)).toList := by
  unfold confirmEvents owes?
  cases e.receipt with
  | none => simp [Event.given]
  | some label =>
      cases e.isConfirmedBy id peer with
      | true => rfl
      | false => rfl

theorem receipt_of_afterConfirm {e : Entry} {id : PublicationId} {peer : Summary} {label : String}
    (h : (e.afterConfirm id peer).receipt = some label) :
    e.receipt = some label ∧ e.isConfirmedBy id peer = false := by
  unfold afterConfirm at h
  cases hconfirmed : e.isConfirmedBy id peer with
  | true => simp [hconfirmed, settled] at h
  | false => exact ⟨by simpa [hconfirmed] using h, rfl⟩

end Entry

/-! ## Rows by id -/

/-- If only the row of one id contributes, the rows together give what that row gives. -/
theorem Table.filterMap_byId_of_only {β : Type} {t : Table} {id : PublicationId} {e : Entry}
    {f : PublicationId × Entry → Option β} (hfind : t.find? id = some e)
    (honly : ∀ other e', t.find? other = some e' → other ≠ id → f (other, e') = none) :
    t.byId.filterMap f = (f (id, e)).toList := by
  rcases List.append_of_mem (mem_byId_iff.mpr hfind) with ⟨first, last, hsplit⟩
  have hnodup := t.nodup_keys_byId
  rw [hsplit, List.map_append, List.map_cons] at hnodup
  have hsides := List.perm_middle.nodup_iff.mp hnodup
  -- An id has one row, so the rows on both sides of this one are those of other ids.
  have habsent : ∀ row ∈ first ++ last, row.1 ≠ id := by
    intro row hmem hsame
    have hnot := (List.nodup_cons.mp hsides).1
    rw [← List.map_append] at hnot
    exact hnot (List.mem_map.mpr ⟨row, hmem, hsame⟩)
  have hrow : ∀ row ∈ first ++ last, row ∈ t.byId := by
    intro row hmem
    rw [hsplit]
    rcases List.mem_append.mp hmem with hmem | hmem
    · exact List.mem_append_left _ hmem
    · exact List.mem_append_right _ (List.mem_cons_of_mem _ hmem)
  have hnone : ∀ row ∈ first ++ last, f row = none := fun row hmem =>
    honly row.1 row.2 (mem_byId_iff.mp (hrow row hmem)) (habsent row hmem)
  have hfirst : first.filterMap f = [] :=
    List.filterMap_eq_nil_iff.mpr fun row hmem => hnone row (List.mem_append_left _ hmem)
  have hlast : last.filterMap f = [] :=
    List.filterMap_eq_nil_iff.mpr fun row hmem => hnone row (List.mem_append_right _ hmem)
  rw [hsplit, List.filterMap_append, hfirst, List.nil_append]
  cases hgives : f (id, e) with
  | none => rw [List.filterMap_cons_none hgives, hlast, Option.toList_none]
  | some b => rw [List.filterMap_cons_some hgives, hlast, Option.toList_some]

namespace Session

variable {s : Session} {test : PublicationId → Entry → Bool} {verdict : Bool} {label : String}
  {events : List Event}

/-- The receipts that are owed for the entries that pass a test, by ascending id. -/
def owedWhere (s : Session) (test : PublicationId → Entry → Bool) : List (String × Publication) :=
  s.table.byId.filterMap fun row => if test row.1 row.2 then row.2.owes? else none

theorem owedWhere_row {row : PublicationId × Entry} {r : String × Publication} :
    (if test row.1 row.2 then row.2.owes? else none) = some r ↔
      test row.1 row.2 = true ∧ row.2.receipt = some r.1 ∧ row.2.publication = r.2 := by
  rcases r with ⟨label, p⟩
  simp only [Entry.owes?, Option.ite_none_right_eq_some, Option.map_eq_some_iff, Prod.mk.injEq]
  constructor
  · rintro ⟨htest, given, hreceipt, rfl, hpublication⟩
    exact ⟨htest, hreceipt, hpublication⟩
  · rintro ⟨htest, hreceipt, hpublication⟩
    exact ⟨htest, label, hreceipt, rfl, hpublication⟩

theorem mem_owedWhere_iff {r : String × Publication} :
    r ∈ s.owedWhere test ↔
      ∃ id e, s.table.find? id = some e ∧ test id e = true ∧ e.receipt = some r.1 ∧
        e.publication = r.2 := by
  simp only [owedWhere, List.mem_filterMap, owedWhere_row, Prod.exists, Table.mem_byId_iff]

/-- What every row gives is what is owed for those that pass the test. -/
theorem given_rows {f : PublicationId × Entry → List Event}
    (hrow : ∀ row, Event.given (f row) =
      ((if test row.1 row.2 then row.2.owes? else none).map fun r => (r.1, r.2, verdict)).toList) :
    Event.given (s.table.byId.flatMap f) =
      (s.owedWhere test).map fun r => (r.1, r.2, verdict) := by
  calc
    Event.given (s.table.byId.flatMap f) = s.table.byId.flatMap fun row => Event.given (f row) :=
      List.filterMap_flatMap
    _ = s.table.byId.filterMap fun row =>
          (if test row.1 row.2 then row.2.owes? else none).map fun r => (r.1, r.2, verdict) := by
      rw [List.filterMap_eq_flatMap_toList]
      exact congrArg s.table.byId.flatMap (funext hrow)
    _ = (s.owedWhere test).map fun r => (r.1, r.2, verdict) := List.map_filterMap.symm

/-- The receipts of one label come from the rows that hold it. -/
theorem receipts_of_rows
    (h : Event.given events = (s.owedWhere test).map fun r => (r.1, r.2, verdict)) (label : String) :
    Event.receipts label events = s.table.byId.filterMap fun row =>
      if row.2.receipt = some label ∧ test row.1 row.2 = true then some (row.2.publication, verdict)
      else none := by
  simp only [Event.receipts, h, owedWhere, List.map_filterMap, List.filter_filterMap]
  refine List.filterMap_congr fun row _ => ?_
  unfold Entry.owes?
  cases row.2.receipt with
  | none => simp
  | some held =>
      cases test row.1 row.2 with
      | false => simp
      | true => by_cases hlabel : held = label <;> simp [hlabel]

/-! ## The receipts of each call -/

theorem given_advance (s : Session) (now : Timestamp) :
    Event.given (s.advance now).events =
      (s.owedWhere fun _ e => e.expires s.config.window now).map fun r => (r.1, r.2, false) := by
  have hnotes : Event.given (s.table.byId.flatMap fun row =>
      (row.2.timerNotes row.1 s.config.window now).map Event.note) = [] := by
    apply List.filterMap_flatMap.trans
    exact List.flatMap_eq_nil_iff.mpr fun row _ => Event.given_notes _
  have hlosses : Event.given (s.table.byId.flatMap fun row => row.2.lossEvents s.config.window now) =
      (s.owedWhere fun _ e => e.expires s.config.window now).map fun r => (r.1, r.2, false) :=
    given_rows fun row => row.2.given_lossEvents s.config.window now
  calc
    Event.given (s.advance now).events
        = Event.given (s.table.byId.flatMap fun row =>
            (row.2.timerNotes row.1 s.config.window now).map Event.note) ++
          Event.given (s.table.byId.flatMap fun row => row.2.lossEvents s.config.window now) :=
        Event.given_append _ _
    _ = (s.owedWhere fun _ e => e.expires s.config.window now).map fun r => (r.1, r.2, false) := by
        rw [hnotes, hlosses, List.nil_append]

theorem given_confirm (s : Session) (peer : Summary) :
    Event.given (s.confirm peer).events =
      (s.owedWhere fun id e => e.isConfirmedBy id peer).map fun r => (r.1, r.2, true) :=
  given_rows fun row => row.2.given_confirmEvents row.1 peer

theorem given_remarks (offer : List Publication) (answer : Option (List Publication)) :
    Event.given (remarks offer answer) = [] := by
  cases answer with
  | none => rfl
  | some reply => rfl

/-- An answer gives the receipts of its timers, and then those that the peer confirms. -/
theorem given_answerPeer (hopen : s.closed = false) (peer : Summary) (now : Timestamp) :
    Event.given (s.answerPeer peer now).events =
      Event.given (s.advance now).events ++
        Event.given ((s.advance now).session.confirm peer).events := by
  rw [events_answerPeer hopen, Event.given_append, Event.given_append, given_remarks, List.append_nil]

theorem given_receiveOne (s : Session) (p : Publication) (now : Timestamp) :
    Event.given (s.receiveOne p now).events = [] := by
  have haccept : Event.given (s.accept p now).events = [] := by
    have hpurge : Event.given (s.store p.id (.arrival p false now none)).purge.events = [] := by
      simp only [purge]
      split
      · rfl
      · rfl
    simp only [accept, deliver, Event.given_append, hpurge]
    simp [Event.given, Event.receipt?]
  simp only [receiveOne]
  split
  · rfl
  · split
    · rw [Event.given_append, Event.given_notes, haccept]
      rfl
    · rw [Event.given_append, Event.given_notes]
      rfl

theorem given_receiveEach (s : Session) (publications : List Publication) (now : Timestamp) :
    Event.given (s.receiveEach publications now).events = [] := by
  induction publications generalizing s with
  | nil => rfl
  | cons p rest ih =>
      simp only [receiveEach, Event.given_append, given_receiveOne, ih, List.append_nil]

/-- Only the timers and answers give receipts. -/
theorem given_perform_eq_nil (s : Session) {call : Call} (hadvance : ∀ now, call ≠ .advance now)
    (hanswer : ∀ peer now, call ≠ .answerPeer peer now) :
    Event.given (s.perform call).events = [] := by
  cases call with
  | publish name payload now receipt =>
      simp only [perform, publish, Step.discard]
      split
      · rfl
      · split
        · rfl
        · rfl
  | subscribe topic => rfl
  | subscribeUri topic =>
      simp only [perform, subscribeUri, Step.discard]
      split
      · rfl
      · rfl
  | receive publications now =>
      simp only [perform, receive, Step.discard]
      split
      · rfl
      · exact s.given_receiveEach publications now
  | answerPeer peer now => exact absurd rfl (hanswer peer now)
  | advance now => exact absurd rfl (hadvance now)
  | close =>
      simp only [perform, close]
      split
      · rfl
      · rfl
  | cancel token => rfl

end Session

end Bulletin
