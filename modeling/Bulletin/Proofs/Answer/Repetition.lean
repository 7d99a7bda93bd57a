import Bulletin.Proofs.Answer.Receipts
import Bulletin.Proofs.Paging

/-!
# Repetition — asking again changes nothing

An answer changes a session on the way: timers run, and receipts are given. A peer that asks again
finds all of this done. This file shows that an answer leaves a session at rest, for its own time and
for all times before it:

* `Entry.AtRest` — no timer of an entry goes off at some time, nor at an earlier one;
* `Session.Current.advance` — timers that have run do nothing at all;
* `Session.Told` and `Session.Told.confirm` — a summary that was answered settles nothing more;
* `Session.answer_again` — the same answer again, and no effect, however often it is repeated.
-/

namespace Bulletin

/-! ## Timers at rest -/

/-- No timer of the entry goes off at `now`: a deadline that is over has left its mark, and the last one
is not over. -/
structure Entry.AtRest (e : Entry) (w : Window) (now : Timestamp) : Prop where
  expired : e.arrived.after w.lifetime ≤ now → e.expired = true
  retired : e.arrived.after w.horizon ≤ now → e.active = false
  kept : ¬ e.arrived.after w.lifetime.double ≤ now

namespace Entry

variable {e : Entry} {w : Window} {now t : Timestamp}

theorem atRest_of_aged (h : e.aged w now = some e) : e.AtRest w now where
  expired hdue := (expired_of_aged h).mpr (Or.inr hdue)
  retired hdue := by
    rw [← Bool.not_eq_true]
    intro hactive
    exact ((active_of_aged h).mp hactive).2 hdue
  kept := by
    rw [← aged_eq_none_iff, h]
    simp

namespace AtRest

/-- What a deadline did later it did not do before. -/
theorem earlier (h : e.AtRest w now) (hle : t ≤ now) : e.AtRest w t where
  expired hdue := h.expired (Nat.le_trans hdue hle)
  retired hdue := h.retired (Nat.le_trans hdue hle)
  kept hdue := h.kept (Nat.le_trans hdue hle)

theorem tests (h : e.AtRest w now) :
    e.expires w now = false ∧ e.unpublishes w now = false ∧ e.isForgotten w now = false := by
  have hkept : e.isForgotten w now = false := by
    rw [← Bool.not_eq_true, isForgotten_iff]
    exact h.kept
  refine ⟨?_, ?_, hkept⟩
  · rw [← Bool.not_eq_true, expires_iff]
    rintro ⟨hunexpired, hdue⟩
    rw [h.expired hdue] at hunexpired
    cases hunexpired
  · cases hactive : e.active with
    | false => simp [unpublishes, hactive]
    | true =>
        have hearly : ¬ e.arrived.after w.horizon ≤ now := by
          intro hdue
          rw [h.retired hdue] at hactive
          cases hactive
        simp [unpublishes, hkept, hearly]

theorem aged (h : e.AtRest w now) : e.aged w now = some e := by
  obtain ⟨hlives, hstays, hkept⟩ := h.tests
  simp [Entry.aged, hlives, hstays, hkept]

end AtRest

end Entry

/-! ## Rows that stay -/

theorem Table.update_eq_self {t : Table} {f : PublicationId → Entry → Option Entry}
    (h : ∀ id e, t.find? id = some e → f id e = some e) : t.update f = t := by
  have hrow : ∀ row ∈ t.rows, updateRow f row = some row := by
    intro row hmem
    simp [updateRow, h row.1 row.2 (mem_rows_iff.mp hmem)]
  have hrows : t.rows.filterMap (updateRow f) = t.rows := by
    calc
      t.rows.filterMap (updateRow f) = t.rows.filterMap some := List.filterMap_congr hrow
      _ = t.rows := List.filterMap_some
  cases t
  simpa [update] using hrows

theorem Table.flatMap_byId_eq_nil {β : Type} {t : Table} {f : PublicationId × Entry → List β}
    (h : ∀ id e, t.find? id = some e → f (id, e) = []) : t.byId.flatMap f = [] :=
  List.flatMap_eq_nil_iff.mpr fun row hmem => h row.1 row.2 (mem_byId_iff.mp hmem)

namespace Session

variable {s : Session} {now t : Timestamp} {peer : Summary}

theorem Current.earlier (h : s.Current now) (hle : t ≤ now) : s.Current t := by
  intro id e hfind
  exact ((Entry.atRest_of_aged (h id e hfind)).earlier hle).aged

theorem idsWhere_eq_nil {test : Entry → Bool}
    (h : ∀ id e, s.table.find? id = some e → test e = false) : s.idsWhere test = [] := by
  apply List.eq_nil_iff_forall_not_mem.mpr
  intro id hmem
  obtain ⟨e, hfind, htest⟩ := mem_idsWhere_iff.mp hmem
  rw [h id e hfind] at htest
  cases htest

/-- Timers that have run report nothing, say nothing and change nothing. -/
theorem Current.advance (h : s.Current now) : s.advance now = ⟨⟨[], [], []⟩, s, []⟩ := by
  have hrest (id : PublicationId) (e : Entry) (hfind : s.table.find? id = some e) :=
    (Entry.atRest_of_aged (h id e hfind)).tests
  -- No test of the timers picks out an entry, so there is nothing to report or to erase.
  have hexpired : s.idsWhere (·.expires s.config.window now) = [] :=
    idsWhere_eq_nil fun id e hfind => (hrest id e hfind).1
  have hunpublished : s.idsWhere (·.unpublishes s.config.window now) = [] :=
    idsWhere_eq_nil fun id e hfind => (hrest id e hfind).2.1
  have hforgotten : s.idsWhere (·.isForgotten s.config.window now) = [] :=
    idsWhere_eq_nil fun id e hfind => (hrest id e hfind).2.2
  have htable : s.table.update (fun _ e => e.aged s.config.window now) = s.table :=
    Table.update_eq_self h
  have hsummary : s.summary.eraseAll [] = s.summary :=
    Summary.eq_of_mem_iff fun id => by simp [Summary.mem_eraseAll]
  have hnotes : (s.table.byId.flatMap fun row =>
      (row.2.timerNotes row.1 s.config.window now).map Event.note) = [] := by
    apply Table.flatMap_byId_eq_nil
    intro id e hfind
    obtain ⟨hlives, hstays, hkept⟩ := hrest id e hfind
    simp [Entry.timerNotes, hlives, hstays, hkept]
  have hlosses : (s.table.byId.flatMap fun row => row.2.lossEvents s.config.window now) = [] := by
    apply Table.flatMap_byId_eq_nil
    intro id e hfind
    cases hreceipt : e.receipt with
    | none => simp [Entry.lossEvents, hreceipt]
    | some label => simp [Entry.lossEvents, hreceipt, (hrest id e hfind).1]
  simp only [Session.advance, hexpired, hunpublished, hforgotten, htable, hsummary, hnotes, hlosses,
    List.append_nil]

/-! ## Receipts at rest -/

/-- The peer's summary settles no receipt. -/
def Told (s : Session) (peer : Summary) : Prop :=
  ∀ id e, s.table.find? id = some e → e.isConfirmedBy id peer = false

theorem told_confirm (s : Session) (peer : Summary) : (s.confirm peer).session.Told peer := by
  intro id e hfind
  rw [find?_confirm] at hfind
  obtain ⟨old, -, rfl⟩ := Option.map_eq_some_iff.mp hfind
  unfold Entry.afterConfirm
  split
  · simp [Entry.isConfirmedBy, Entry.settled]
  · rename_i hunconfirmed
    simpa using hunconfirmed

theorem Told.confirm (h : s.Told peer) : s.confirm peer = ⟨(), s, []⟩ := by
  have htable : (s.table.mapEntries fun id e =>
      if e.isConfirmedBy id peer then e.settled else e) = s.table := by
    apply Table.update_eq_self
    intro id e hfind
    simp [h id e hfind]
  have hevents : (s.table.byId.flatMap fun row => row.2.confirmEvents row.1 peer) = [] := by
    apply Table.flatMap_byId_eq_nil
    intro id e hfind
    cases hreceipt : e.receipt with
    | none => simp [Entry.confirmEvents, hreceipt]
    | some label => simp [Entry.confirmEvents, hreceipt, h id e hfind]
  simp only [Session.confirm, htable, hevents]

/-! ## Answering again -/

/-- A session at rest answers what it has on offer, and does nothing but remark on it. -/
theorem answerPeer_at_rest (hopen : s.closed = false) (hcurrent : s.Current now) (htold : s.Told peer) :
    (s.answerPeer peer now).session = s ∧
      (s.answerPeer peer now).events = remarks (s.offer peer) (s.answerPeer peer now).answer := by
  have hadvance := hcurrent.advance
  have hconfirm := htold.confirm
  have hsession : (s.answerPeer peer now).session = s := by
    rw [session_answerPeer hopen, hadvance, hconfirm]
  refine ⟨hsession, ?_⟩
  rw [events_answerPeer hopen, hsession, hadvance, hconfirm]
  rfl

/-- An answer leaves the session at rest, at its time and at every earlier one. -/
theorem answerPeer_rests (hopen : s.closed = false) (peer : Summary) (hle : t ≤ now) :
    (s.answerPeer peer now).session.closed = false ∧
      (s.answerPeer peer now).session.Current t ∧ (s.answerPeer peer now).session.Told peer := by
  have hkeep : Call.answerPeer peer now ≠ .close := by simp
  refine ⟨open_perform hopen hkeep, (current_answerPeer hopen peer now).earlier hle, ?_⟩
  rw [session_answerPeer hopen]
  exact told_confirm _ peer

theorem answer_repeated (hopen : s.closed = false) (peer : Summary) (hle : t ≤ now) :
    ((s.answerPeer peer now).session.answerPeer peer t).answer = (s.answerPeer peer now).answer := by
  obtain ⟨hstill, hcurrent, htold⟩ := answerPeer_rests hopen peer hle
  have hconfig : (s.answerPeer peer now).session.config = s.config :=
    (s.settings_perform (.answerPeer peer now)).1
  rw [answer_answerPeer hstill, (answerPeer_at_rest hstill hcurrent htold).1, hconfig,
    answer_answerPeer hopen]

end Session

/-- The call asks the timers or the peer's question again, not later than `now`. -/
def Call.Repeats (peer : Summary) (now : Timestamp) : Call → Prop
  | .advance t => t ≤ now
  | .answerPeer other t => other = peer ∧ t ≤ now
  | _ => False

namespace Session

variable {s : Session} {now : Timestamp} {peer : Summary}

theorem perform_repeated (hopen : s.closed = false) {call : Call} (h : call.Repeats peer now) :
    ((s.answerPeer peer now).session.perform call).session = (s.answerPeer peer now).session ∧
      Event.given ((s.answerPeer peer now).session.perform call).events = [] := by
  cases call with
  | advance t =>
      obtain ⟨-, hcurrent, -⟩ := answerPeer_rests hopen peer h
      have hstep := hcurrent.advance
      exact ⟨congrArg Step.session hstep, congrArg (fun step => Event.given step.events) hstep⟩
  | answerPeer other t =>
      obtain ⟨rfl, hle⟩ := h
      obtain ⟨hstill, hcurrent, htold⟩ := answerPeer_rests hopen other hle
      obtain ⟨hsession, hevents⟩ := answerPeer_at_rest hstill hcurrent htold
      refine ⟨hsession, ?_⟩
      simp only [perform, Step.discard, hevents, given_remarks]
  | publish | subscribe | subscribeUri | receive | close | cancel => cases h

/-- By induction over the repetitions: each of them leaves the session where it was. -/
theorem after_repeated (hopen : s.closed = false) {later : List Call}
    (h : ∀ call ∈ later, call.Repeats peer now) :
    (s.answerPeer peer now).session.after later = (s.answerPeer peer now).session ∧
      Event.given ((s.answerPeer peer now).session.history later) = [] := by
  induction later with
  | nil => exact ⟨rfl, rfl⟩
  | cons call rest ih =>
      obtain ⟨hcall, hrest⟩ := List.forall_mem_cons.mp h
      obtain ⟨hsession, hnothing⟩ := perform_repeated hopen hcall
      obtain ⟨hafter, hsilent⟩ := ih hrest
      simp only [after_cons, history_cons, hsession, Event.given_append, hnothing]
      exact ⟨hafter, hsilent⟩

/-- Answering again is idempotent. Once an open session has answered a peer at `now`, running the timers
to any time that is not later reports nothing, gives no receipt and changes nothing; answering the same
summary again, then or as of an earlier time, returns the same reply, gives no receipt and leaves the
whole session as it is. So does any number of such calls in any order. -/
theorem answer_again (s : Session) (peer : Summary) (now : Timestamp) (hopen : s.closed = false) :
    let first := s.answerPeer peer now
    (∀ t, t ≤ now → first.session.advance t = ⟨⟨[], [], []⟩, first.session, []⟩) ∧
      (∀ t, t ≤ now →
        let second := first.session.answerPeer peer t
        second.answer = first.answer ∧ second.session = first.session ∧
          Event.given second.events = []) ∧
      ∀ later, (∀ call ∈ later, call.Repeats peer now) →
        first.session.after later = first.session ∧
          Event.given (first.session.history later) = [] := by
  intro first
  refine ⟨?_, ?_, ?_⟩
  · intro t hle
    obtain ⟨-, hcurrent, -⟩ := answerPeer_rests hopen peer hle
    exact hcurrent.advance
  · intro t hle second
    have hrepeats : (Call.answerPeer peer t).Repeats peer now := ⟨rfl, hle⟩
    exact ⟨answer_repeated hopen peer hle, perform_repeated hopen hrepeats⟩
  · intro later hrepeats
    exact after_repeated hopen hrepeats

/-- A publication whose receipt the first answer gives, at the last instant before it expires. -/
theorem answer_again_confirmed :
    let s := fresh {} (.lifecycle {})
    let p := Publication.stamped .root .zero [1]
    let board := s.after [.publish .root [1] .zero (some "once"), .publish .root [2] .zero none]
    let peer := Summary.ofList [p.id]
    let first := board.answerPeer peer ⟨999999⟩
    openDefault {} = .ok s ∧ board.closed = false ∧
      (first.session.answerPeer peer ⟨999999⟩).answer = first.answer ∧
      (first.session.answerPeer peer ⟨999999⟩).session = first.session ∧
      Event.given (first.session.history [.advance ⟨5⟩, .answerPeer peer ⟨999999⟩]) = [] := by
  intro s p board peer first
  have hlive : board.closed = false := open_after rfl (by simp)
  obtain ⟨-, hsecond, hruns⟩ := answer_again board peer ⟨999999⟩ hlive
  obtain ⟨hanswer, hsession, -⟩ := hsecond ⟨999999⟩ (Nat.le_refl _)
  obtain ⟨-, hgiven⟩ := hruns [.advance ⟨5⟩, .answerPeer peer ⟨999999⟩]
    (by simp [Call.Repeats, Timestamp.le_iff, Timestamp.toNat])
  exact ⟨rfl, hlive, hanswer, hsession, hgiven⟩

end Session

end Bulletin
