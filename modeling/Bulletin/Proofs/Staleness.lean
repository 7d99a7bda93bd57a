import Bulletin.Proofs.Paging
import Bulletin.Proofs.Replay
import Bulletin.Proofs.Storing

/-!
# Staleness — how old the publications of a session can be

What is received is judged by its stamp, but the timers of an entry run from its arrival. The two are
tied by what holds when a publication is stored: it is fresh at that time. With a clock that does not
go back this bounds the age of everything that is stored or offered:

* `Entry.Recent` — an entry was fresh when it arrived, and the timers have not passed it over;
* `Session.undue_of_timer` — the timers leave nothing that is due;
* `Session.Recent.perform`, `Session.Recent.after` — what calls and runs keep;
* `Session.Recent.lt_of_mem_stored`, `Session.Recent.lt_of_find?`, `Session.Recent.of_mem_answer` —
  the age of what is stored, of what is kept and of what is offered;
* `Session.staleness_bounds` — the bounds for offers, for the table and for what comes again.
-/

namespace Bulletin

/-! ## Windows and arrivals -/

namespace Window.Whole

variable {w : Window} {L S : ℕ} {t now : Timestamp}

theorem lt_lifetime (h : w.Whole L S) (hearly : now < t.after w.lifetime) :
    now.toNat < t.toNat + L := by
  have hlt := Timestamp.lt_add_of_lt_after hearly
  rwa [Duration.micros_of_nanos h.lifetime] at hlt

/-- A doubled lifetime that is clamped is only shorter. -/
theorem lt_double (h : w.Whole L S) (hearly : now < t.after w.lifetime.double) :
    now.toNat < t.toNat + 2 * L := by
  have hlt := Timestamp.lt_add_of_lt_after hearly
  have hnanos := w.lifetime.nanos_double
  have hlifetime := h.lifetime
  unfold Duration.micros at hlt
  omega

/-- What is stamped now is fresh, since the skew reaches into the future. -/
theorem fresh_stamped (h : w.Whole L S) (hskew : 1 ≤ S) (name : Name) (payload : Bytes)
    (now : Timestamp) : w.fresh (.stamped name now payload) now = true := by
  rw [h.fresh_iff, Publication.timestamp_of_timestamp? (Publication.timestamp?_stamped _ _ _)]
  omega

end Window.Whole

/-- An entry was fresh when it arrived, which was no later than `clock`, and the timers, which have run
to `floor`, have not passed twice its lifetime. -/
structure Entry.Recent (w : Window) (L : ℕ) (floor clock : Timestamp) (e : Entry) : Prop where
  fresh : w.fresh e.publication e.arrived = true
  past : e.arrived ≤ clock
  kept : floor.toNat < e.arrived.toNat + 2 * L

namespace Session

variable {s : Session} {call : Call} {floor clock now : Timestamp} {L S : ℕ} {id : PublicationId}
  {e : Entry} {p : Publication}

/-- The timers leave nothing that is due. -/
theorem undue_of_timer (htimer : s.timer? call = some now)
    (hfind : (s.perform call).session.table.find? id = some e) :
    now < e.arrived.after s.config.window.lifetime.double ∧
      (e.expired = false → now < e.arrived.after s.config.window.lifetime) := by
  -- Receipts aside, the entry is an old one whose timers have run.
  have hsettled := (find?_of_timer htimer id).2
  rw [hfind, Option.map_some] at hsettled
  rcases Option.map_eq_some_iff.mp hsettled.symm with ⟨aged, hbind, hsame⟩
  rcases Option.bind_eq_some_iff.mp hbind with ⟨old, -, haged⟩
  have harrived : e.arrived = old.arrived := by
    rw [Entry.aged_eq_some haged] at hsame
    exact (congrArg Entry.arrived hsame).symm
  have hexpired : e.expired = aged.expired := (congrArg Entry.expired hsame).symm
  rw [harrived, hexpired]
  constructor
  · apply Nat.lt_of_not_le
    intro hdue
    rw [Entry.aged_eq_none_iff.mpr hdue] at haged
    cases haged
  · intro hunexpired
    apply Nat.lt_of_not_le
    intro hdue
    rw [(Entry.expired_of_aged haged).mpr (Or.inr hdue)] at hunexpired
    cases hunexpired

/-! ## Runs -/

/-- A session that judges by its own window of `L` and `S` microseconds, whose timers have run to
`floor` and whose clock stands at `clock`. -/
structure Recent (s : Session) (L S : ℕ) (floor clock : Timestamp) : Prop where
  policy : s.policy = .lifecycle s.config.window
  whole : s.config.window.Whole L S
  lifetime : 1 ≤ L
  skew : 1 ≤ S
  past : floor ≤ clock
  entries : ∀ id e, s.table.find? id = some e → e.Recent s.config.window L floor clock

namespace Recent

theorem valid_iff (h : s.Recent L S floor clock) :
    s.policy.valid p now = true ↔
      p.timestamp.toNat < now.toNat + S ∧ now.toNat < p.timestamp.toNat + L + S := by
  rw [h.policy]
  exact h.whole.fresh_iff

theorem wait (h : s.Recent L S floor clock) (hle : clock ≤ now) : s.Recent L S floor now where
  policy := h.policy
  whole := h.whole
  lifetime := h.lifetime
  skew := h.skew
  past := Nat.le_trans h.past hle
  entries id e hfind :=
    have hentry := h.entries id e hfind
    ⟨hentry.fresh, Nat.le_trans hentry.past hle, hentry.kept⟩

theorem arrival (h : s.Recent L S floor clock) (hle : clock ≤ now)
    (hfresh : s.config.window.fresh p now = true) (own : Bool) (receipt : Option String) :
    (Entry.arrival p own now receipt).Recent s.config.window L floor now where
  fresh := hfresh
  past := Nat.le_refl _
  kept := by
    have hlifetime := h.lifetime
    have hfloor : floor.toNat ≤ now.toNat := Nat.le_trans h.past hle
    have harrived : (Entry.arrival p own now receipt).arrived = now := rfl
    rw [harrived]
    omega

theorem perform (h : s.Recent L S floor clock) (hle : clock ≤ call.time?.getD clock) :
    (s.perform call).session.Recent L S floor (call.time?.getD clock) := by
  have hsettings := s.settings_perform call
  refine ⟨?_, ?_, h.lifetime, h.skew, Nat.le_trans h.past hle, ?_⟩
  · rw [hsettings.1, hsettings.2.1]
    exact h.policy
  · rw [hsettings.1]
    exact h.whole
  · rw [hsettings.1]
    -- Ageing and settling keep stamp and arrival; what arrives is fresh at that time.
    refine entries_perform (h.wait hle).entries ?_ ?_ ?_ ?_
    · intro t _ id e e' hentry haged
      rw [Entry.aged_eq_some haged]
      exact ⟨hentry.fresh, hentry.past, hentry.kept⟩
    · intro id e hentry
      exact ⟨hentry.fresh, hentry.past, hentry.kept⟩
    · rintro name payload now receipt rfl -
      exact h.arrival hle (h.whole.fresh_stamped h.skew name payload now) true receipt
    · rintro publications now p rfl - - hvalid
      rw [h.policy] at hvalid
      exact h.arrival hle hvalid false none

/-- The timers raise the floor to the time they run to. -/
theorem perform_timer (h : s.Recent L S floor now) (htime : call.time? = some now)
    (htimer : s.timer? call = some now) : (s.perform call).session.Recent L S now now := by
  have hle : now ≤ call.time?.getD now := by
    rw [htime]
    exact Nat.le_refl _
  have hnext : (s.perform call).session.Recent L S floor now := by
    have hcall := h.perform hle
    rwa [htime] at hcall
  refine ⟨hnext.policy, hnext.whole, h.lifetime, h.skew, Nat.le_refl _, ?_⟩
  intro id e hfind
  have hentry := hnext.entries id e hfind
  exact ⟨hentry.fresh, hentry.past, h.whole.lt_double (undue_of_timer htimer hfind).1⟩

/-- By induction over the first calls of a run: they keep the floor, and take the clock on. -/
theorem after (h : s.Recent L S floor clock) {first second : List Call}
    (hchron : Call.Chronological clock (first ++ second)) :
    ∃ later, (s.after first).Recent L S floor later ∧ Call.Chronological later second := by
  induction first generalizing s clock with
  | nil => exact ⟨clock, h, hchron⟩
  | cons call rest ih =>
      rcases hchron.cons with ⟨hle, hrest⟩
      exact ih (h.perform hle) hrest

/-- An entry is not older than three lifetimes and the skew: it arrived within lifetime and skew of
its stamp, and it is forgotten twice a lifetime later. -/
theorem lt_of_find? (h : s.Recent L S floor clock) (hfind : s.table.find? id = some e) :
    floor.toNat < e.publication.timestamp.toNat + 3 * L + S := by
  have hentry := h.entries id e hfind
  have hkept := hentry.kept
  have hfresh := h.whole.fresh_iff.mp hentry.fresh
  omega

/-- What is stored from `clock` on is not older than lifetime and skew at that time. -/
theorem lt_of_mem_stored (h : s.Recent L S floor clock) {calls : List Call}
    (hchron : Call.Chronological clock calls) (hmem : p ∈ s.stored calls) :
    clock.toNat < p.timestamp.toNat + L + S := by
  induction calls generalizing s clock with
  | nil => cases hmem
  | cons call rest ih =>
      rcases hchron.cons with ⟨hle, hrest⟩
      have hnext := h.perform hle
      have hclock : clock.toNat ≤ (call.time?.getD clock).toNat := hle
      rcases List.mem_append.mp hmem with hcall | hlater
      · -- It is in the table after the call, as an entry that was fresh when it arrived.
        rcases time_of_stored hcall with ⟨now, htime⟩
        rcases find?_of_stored hcall htime with ⟨-, own, receipt, hfind⟩
        have hfresh : now.toNat < p.timestamp.toNat + L + S :=
          (hnext.whole.fresh_iff.mp (hnext.entries p.id _ hfind).fresh).2
        rw [htime, Option.getD_some] at hclock
        omega
      · have hbound := ih hnext hrest hlater
        omega

/-- What is offered is unexpired, so it arrived less than a lifetime ago; one's own are stamped with
their arrival, which is in the window still. -/
theorem of_mem_answer (h : s.Recent L S floor now) (hconsistent : s.Consistent) {peer : Summary}
    {reply : List Publication} (hanswer : (s.answerPeer peer now).answer = some reply)
    (hmem : p ∈ reply) :
    now.toNat < p.timestamp.toNat + 2 * L + S ∧
      ∃ e, (s.answerPeer peer now).session.table.find? p.id = some e ∧ e.publication = p ∧
        (e.own = true → s.policy.valid p now = true) := by
  let call := Call.answerPeer peer now
  have hnext : (s.perform call).session.Recent L S floor now := h.perform (Nat.le_refl _)
  have hsound : (s.perform call).session.Consistent := hconsistent.perform call
  rcases mem_offer_of_answer hanswer hmem with ⟨hopen, hoffer⟩
  have htimer : s.timer? call = some now := by simp [call, timer?, hopen]
  rcases candidate_of_mem_offer hnext.policy hoffer with ⟨e, hcandidate, rfl⟩
  rcases mem_candidates_iff.mp hcandidate with ⟨id, -, -, hfind, hunexpired⟩
  have hearly := h.whole.lt_lifetime ((undue_of_timer htimer hfind).2 hunexpired)
  have hentry := hnext.entries id e hfind
  have hfresh := hnext.whole.fresh_iff.mp hentry.fresh
  refine ⟨by omega, e, (hsound.keyed id e hfind).symm ▸ hfind, rfl, ?_⟩
  intro hown
  have hstamp := Publication.timestamp_of_timestamp? (hsound.stamped id e hfind hown)
  have hpast : e.arrived.toNat ≤ now.toNat := hentry.past
  have hskew := h.skew
  rw [h.valid_iff, hstamp]
  omega

end Recent

/-- How old publications can be, for lifetime `L` and skew `S` in microseconds and a clock that does
not go back. Let a call be made at `now` in any run, whatever is received. What it offers is stamped
less than `2 * L + S` before `now`, and one's own are still valid. If it runs the timers, then all
entries are stamped less than `3 * L + S` before `now`, at once and ever after. And from this call on
nothing is stored that is stamped `L + S` or more before `now`. -/
theorem staleness_bounds (config : SessionConfig) (s : Session) (L S : ℕ)
    (before later : List Call) (call : Call) (now : Timestamp)
    (hopen : openDefault config = .ok s) (hwhole : config.window.Whole L S) (hskew : 1 ≤ S)
    (hordered : ((before ++ call :: later).filterMap Call.time?).Pairwise (· ≤ ·))
    (htime : call.time? = some now) :
    let board := s.after before
    (∀ peer reply, call = .answerPeer peer now → (board.answerPeer peer now).answer = some reply →
        ∀ p ∈ reply, now.toNat < p.timestamp.toNat + 2 * L + S ∧
          ∃ e, (board.answerPeer peer now).session.table.find? p.id = some e ∧ e.publication = p ∧
            (e.own = true → s.policy.valid p now = true)) ∧
      (board.timer? call = some now →
        (∀ id e, (board.perform call).session.table.find? id = some e →
          now.toNat < e.publication.timestamp.toNat + 3 * L + S) ∧
        ∀ id e, (s.after (before ++ call :: later)).table.find? id = some e →
          now.toNat < e.publication.timestamp.toNat + 3 * L + S) ∧
      ∀ p ∈ board.stored (call :: later), now.toNat < p.timestamp.toNat + L + S := by
  intro board
  have hconsistent : board.Consistent := Consistent.of_openWith hopen before
  rcases openWith_eq_ok hopen with ⟨hfault, rfl⟩
  have hlifetime : 1 ≤ L := by
    have hpositive : config.window.lifetime.nanos ≠ 0 := by
      intro hzero
      simp [SessionConfig.fault?, hzero] at hfault
    have hnanos := hwhole.lifetime
    omega
  have hstart : (fresh config (.lifecycle config.window)).Recent L S .zero .zero :=
    ⟨rfl, hwhole, hlifetime, hskew, Nat.le_refl _, by rintro id e ⟨⟩⟩
  rcases hstart.after (Call.Chronological.of_pairwise hordered) with ⟨clock, hboard, hrest⟩
  rcases hrest.cons with ⟨hle, hlater⟩
  rw [htime, Option.getD_some] at hle hlater
  -- The clock may be taken on to this call before it is made.
  have hnow : board.Recent L S .zero now := hboard.wait hle
  have hpolicy : board.policy = .lifecycle config.window := (settings_after _ before).2
  refine ⟨?_, ?_, ?_⟩
  · rintro peer reply rfl hanswer p hmem
    have hoffered := hnow.of_mem_answer hconsistent hanswer hmem
    rwa [hpolicy] at hoffered
  · intro htimer
    have hnext := hnow.perform_timer htime htimer
    refine ⟨fun id e hfind => hnext.lt_of_find? hfind, ?_⟩
    intro id e hfind
    rw [after_append] at hfind
    have hrun : Call.Chronological now (later ++ []) := by rwa [List.append_nil]
    rcases hnext.after hrun with ⟨last, hlast, -⟩
    exact hlast.lt_of_find? hfind
  · intro p hmem
    exact hnow.lt_of_mem_stored (hlater.of_time htime) hmem

/-- An own publication that is offered just before it expires, and that a peer sends again when its
entry is long forgotten. -/
theorem staleness_bounds_returned :
    let config : SessionConfig := { window := ⟨.ofMicros 9, .ofMicros 5⟩ }
    let s := fresh config (.lifecycle config.window)
    let p := Publication.stamped .root ⟨3⟩ []
    let publish := Call.publish .root [] ⟨3⟩ none
    let answer := Call.answerPeer .empty ⟨11⟩
    let rest : List Call := [.advance ⟨35⟩, .receive [p] ⟨36⟩]
    openDefault config = .ok s ∧
      ((s.after [publish]).answerPeer .empty ⟨11⟩).answer = some [p] ∧
      s.policy.valid p ⟨11⟩ = true ∧
      p ∉ (s.after [publish, answer]).stored rest ∧
      ∀ id e, (s.after (publish :: answer :: rest)).table.find? id = some e → e.publication ≠ p := by
  intro config s p publish answer rest
  have hwhole : config.window.Whole 9 5 := ⟨by decide, by decide⟩
  have hstamp : p.timestamp.toNat = 3 := by
    rw [Publication.timestamp_of_timestamp? (Publication.timestamp?_stamped _ _ _)]
    rfl
  have hoffer := (staleness_bounds config s 9 5 [publish] rest answer ⟨11⟩ rfl hwhole (by decide)
    (by decide) rfl).1 .empty
  have hlate := (staleness_bounds config s 9 5 [publish, answer] [.receive [p] ⟨36⟩] (.advance ⟨35⟩)
    ⟨35⟩ rfl hwhole (by decide) (by decide) rfl).2
  have hlast : Timestamp.toNat ⟨35⟩ = 35 := rfl
  let board := s.after [publish]
  let entry := Entry.arrival p true ⟨3⟩ none
  have hstored (id : PublicationId) :
      board.table.find? id = if p.id = id then some entry else none := by
    have hnew : s.table.find? id = none := rfl
    have hfresh : s.closed = false := rfl
    simp [board, find?_perform, entryAfter, publish, hnew, hfresh, p, entry]
  have hopen : openDefault config = .ok s := rfl
  have hconsistent : board.Consistent := Consistent.of_openWith hopen [publish]
  have hanswer : (board.answerPeer .empty ⟨11⟩).answer = some [p] := by
    refine hconsistent.answer_of_only (open_after rfl (by simp [publish]))
      (settings_after s [publish]).2 ((hstored p.id).trans (if_pos rfl)) ?_ rfl rfl ?_
      List.not_mem_nil
    · intro other e hfind
      rw [hstored] at hfind
      split at hfind
      · exact (Option.some.inj hfind).symm
      · cases hfind
    · rw [(settings_after s [publish]).1]
      decide
  refine ⟨hopen, hanswer, ?_, ?_, ?_⟩
  · obtain ⟨-, e, hfind, -, hvalid⟩ := hoffer [p] rfl hanswer p (List.mem_singleton_self p)
    -- The entry that the answer shows is the one that was published, so it is own.
    rcases kept_or_forgotten ((hstored p.id).trans (if_pos rfl)) answer with
      ⟨e', hkept, -, hown, -⟩ | ⟨-, -, -, hgone⟩
    · cases hfind.symm.trans hkept
      exact hvalid hown
    · cases hfind.symm.trans hgone
  · intro hmem
    have hbound := hlate.2 p hmem
    omega
  · intro id e hfind hsame
    have hbound := (hlate.1 rfl).2 id e hfind
    rw [hsame] at hbound
    omega

end Session

end Bulletin
