import Bulletin.Hub
import Bulletin.Proofs.Answer.Receipts
import Bulletin.Proofs.Exchange.Transfer
import Bulletin.Proofs.LifeCycle

/-!
# Closing — what ends with a session, and what a failed call leaves

A closed session can still be called. Most calls are refused; subscribing is not, and the timers run
on. This file says what such a session can do in all the time that is left to it:

* `Entry.outlasting` — what is left of an entry without a receipt, by the latest run of the timers;
* `Session.Shut` — what a closed session answers, and that only its timers touch the table;
* `Session.Mirrors` — the table, the summary and the timers of two sessions agree, closed or not;
* `Step.Traceless` — a call that leaves the session as it was, and that nobody hears of but the log;
* `Session.closing_final` — closing is final, and failed calls leave no trace.
-/

namespace Bulletin

/-! ## Ageing without receipts -/

/-- What is left of an entry without a receipt when the latest run of the timers was to `m`. -/
def Entry.outlasting (w : Window) (m : WithBot ℕ) (e : Entry) : Option Entry :=
  if (e.arrived.after w.lifetime.double).level ≤ m then none
  else
    some
      { e with
        expired := e.expired || decide ((e.arrived.after w.lifetime).level ≤ m)
        active := e.active && !decide ((e.arrived.after w.horizon).level ≤ m) }

namespace Entry

variable {e : Entry} {w : Window}

theorem outlasting_bot (w : Window) (e : Entry) : e.outlasting w ⊥ = some e := by
  have hbefore (d : Duration) : ¬ (e.arrived.after d).level ≤ ⊥ :=
    not_le_of_gt (WithBot.bot_lt_coe _)
  simp [outlasting, hbefore]

/-- One run of the timers. -/
theorem aged_eq_outlasting (hreceipt : e.receipt = none) (now : Timestamp) :
    e.aged w now = e.outlasting w now.level := by
  simp only [aged, outlasting, isForgotten, Timestamp.level_le_level, decide_eq_true_eq]
  split
  · rfl
  · rename_i hkept
    -- There is no receipt to lose, so the run sets the two marks and does nothing else.
    simp only [expires, unpublishes, isForgotten, hreceipt, hkept, ite_self]
    cases e.expired <;> cases e.active <;> simp

/-- Two runs count as the later one. -/
theorem bind_outlasting (e : Entry) (w : Window) (m n : WithBot ℕ) :
    (e.outlasting w m).bind (·.outlasting w n) = e.outlasting w (max m n) := by
  unfold outlasting
  by_cases hgone : (e.arrived.after w.lifetime.double).level ≤ m
  · simp [hgone]
  · simp [hgone, Bool.or_assoc, Bool.and_assoc]

end Entry

/-! ## Events that nobody hears of -/

namespace Event

/-- No publisher is given a receipt and no subscription receives anything: these are remarks. -/
structure Unheard (events : List Event) : Prop where
  receipts : given events = []
  queues : deliveries events = []

theorem unheard_nil : Unheard [] := ⟨rfl, rfl⟩

theorem unheard_notes (notes : List Note) : Unheard (notes.map Event.note) :=
  ⟨given_notes notes, deliveries_notes notes⟩

theorem Unheard.append {first second : List Event} (h : Unheard first) (h' : Unheard second) :
    Unheard (first ++ second) where
  receipts := by rw [given_append, h.receipts, h'.receipts, List.nil_append]
  queues := by rw [deliveries_append, h.queues, h'.queues, List.nil_append]

theorem Unheard.takeAll {events : List Event} (h : Unheard events) (label : String)
    (box : Mailbox) : box.takeAll label events = box := by
  rw [Mailbox.takeAll_eq, h.queues]
  simp

end Event

/-- The call that led to the step left the session as it was, and nobody hears of it but the log. -/
structure Step.Traceless {α : Type} (s : Session) (step : Step α) : Prop where
  session : step.session = s
  unheard : Event.Unheard step.events

/-- Whether a call runs the timers and does nothing else. -/
def Call.isAdvance : Call → Bool
  | .advance _ => true
  | _ => false

namespace Session

variable {s t : Session} {call : Call}

/-! ## One call of a closed session -/

/-- What a closed session answers. Only its timers touch the table, and nothing else happens. -/
structure Shut (s : Session) : Prop where
  closed : s.closed = true
  publish : ∀ name payload now receipt, s.publish name payload now receipt = ⟨.error .closed, s, []⟩
  receive : ∀ publications now, s.receive publications now = ⟨.error .closed, s, []⟩
  answerPeer : ∀ peer now, s.answerPeer peer now = ⟨none, s, []⟩
  close : s.close = ⟨(), s, []⟩
  still : ∀ call : Call, call.isAdvance = false →
    (s.perform call).session.table = s.table ∧ (s.perform call).session.summary = s.summary ∧
      (s.perform call).events = []

theorem shut_of_closed (hclosed : s.closed = true) : s.Shut where
  closed := hclosed
  publish := by simp [Session.publish, hclosed]
  receive := by simp [Session.receive, hclosed]
  answerPeer := by simp [Session.answerPeer, hclosed]
  close := by simp [Session.close, hclosed]
  still := by
    intro call hother
    cases call with
    | publish | receive | answerPeer | close =>
        simp [perform, Step.discard, Session.publish, Session.receive, Session.answerPeer,
          Session.close, hclosed]
    | subscribe topic => exact ⟨rfl, rfl, rfl⟩
    | subscribeUri topic =>
        simp only [perform, subscribeUri, Step.discard]
        split
        · exact ⟨rfl, rfl, rfl⟩
        · exact ⟨rfl, rfl, rfl⟩
    | advance now => cases hother
    | cancel token => exact ⟨rfl, rfl, rfl⟩

theorem closed_perform (hclosed : s.closed = true) (call : Call) :
    (s.perform call).session.closed = true :=
  (s.settings_perform call).2.2.mpr (Or.inl hclosed)

theorem closed_after (hclosed : s.closed = true) (calls : List Call) :
    (s.after calls).closed = true :=
  after_induction (P := fun t => t.closed = true) (fun _ call ht => closed_perform ht call) hclosed
    calls

/-- The timers of a closed session run when they are told to, and not before an answer. -/
theorem timer?_of_closed (hclosed : s.closed = true) (hother : call.isAdvance = false) :
    s.timer? call = none := by
  cases call with
  | answerPeer peer now => simp [timer?, hclosed]
  | advance now => cases hother
  | publish | subscribe | subscribeUri | receive | close | cancel => rfl

/-- No receipt is owed any more, so none is lost. -/
theorem Consistent.unheard_of_closed (h : s.Consistent) (hclosed : s.closed = true) (call : Call) :
    Event.Unheard (s.perform call).events := by
  cases hadvance : call.isAdvance with
  | false =>
      rw [((shut_of_closed hclosed).still call hadvance).2.2]
      exact Event.unheard_nil
  | true =>
      cases call with
      | advance now =>
          -- A closed session has settled all of its entries.
          have hnothing : s.owedWhere (fun _ e => e.expires s.config.window now) = [] := by
            apply List.filterMap_eq_nil_iff.mpr
            rintro ⟨id, e⟩ hmem
            have hquiet : e.receipt = none := h.quiet hclosed (Table.mem_byId_iff.mp hmem)
            simp [Entry.owes?, hquiet]
          refine ⟨?_, s.deliveries_advance now⟩
          exact (s.given_advance now).trans (by rw [hnothing]; rfl)
      | publish | subscribe | subscribeUri | receive | answerPeer | close | cancel => cases hadvance

/-! ## The rest of its run -/

theorem Consistent.unheard_history (h : s.Consistent) (hclosed : s.closed = true)
    (later : List Call) : Event.Unheard (s.history later) := by
  induction later generalizing s with
  | nil => exact Event.unheard_nil
  | cons call rest ih =>
      apply (h.unheard_of_closed hclosed call).append
      exact ih (h.perform call) (closed_perform hclosed call)

/-- Every entry of `s` is what the timers leave of the entry of `base` by a latest run to `m`. -/
def Outlasts (base s : Session) (m : WithBot ℕ) : Prop :=
  ∀ id, s.table.find? id = (base.table.find? id).bind (·.outlasting s.config.window m)

theorem Outlasts.perform {base : Session} {m : WithBot ℕ} (h : base.Outlasts s m)
    (hc : s.Consistent) (hclosed : s.closed = true) (call : Call) :
    base.Outlasts (s.perform call).session (max m (latest (s.timer? call).toList)) := by
  intro id
  rw [(s.settings_perform call).1]
  cases hadvance : call.isAdvance with
  | false =>
      rw [((shut_of_closed hclosed).still call hadvance).1, timer?_of_closed hclosed hadvance]
      exact (max_eq_left bot_le : max m ⊥ = m).symm ▸ h id
  | true =>
      cases call with
      | advance now =>
          have haged : (s.table.find? id).bind (·.aged s.config.window now) =
              (s.table.find? id).bind (·.outlasting s.config.window now.level) := by
            cases hfind : s.table.find? id with
            | none => rfl
            | some e => exact Entry.aged_eq_outlasting (hc.quiet hclosed hfind) now
          -- This run ages what the earlier ones left of the entry.
          calc
            (s.advance now).session.table.find? id
                = (s.table.find? id).bind (·.outlasting s.config.window now.level) :=
                (s.find?_advance now id).trans haged
            _ = (base.table.find? id).bind fun e =>
                  (e.outlasting s.config.window m).bind (·.outlasting s.config.window now.level) := by
                rw [h id, Option.bind_assoc]
            _ = (base.table.find? id).bind
                  (·.outlasting s.config.window (max m (latest [now]))) := by
                simp only [Entry.bind_outlasting]
                rfl
      | publish | subscribe | subscribeUri | receive | answerPeer | close | cancel => cases hadvance

/-- By induction over the run, as for a publication in `Lives.after`. -/
theorem Outlasts.after {base : Session} {m : WithBot ℕ} (h : base.Outlasts s m)
    (hc : s.Consistent) (hclosed : s.closed = true) (later : List Call) :
    base.Outlasts (s.after later) (max m (latest (s.timers later))) := by
  induction later generalizing s m with
  | nil => exact (max_eq_left bot_le : max m ⊥ = m).symm ▸ h
  | cons call rest ih =>
      have hrest := ih (h.perform hc hclosed call) (hc.perform call) (closed_perform hclosed call)
      rw [max_assoc, ← latest_append] at hrest
      exact hrest

theorem outlasts_self (s : Session) : s.Outlasts s ⊥ := by
  intro id
  simp [Entry.outlasting_bot]

/-! ## Compared with an open session -/

/-- Two sessions with the same timers, table and summary. -/
structure Mirrors (t s : Session) : Prop where
  config : t.config = s.config
  table : t.table = s.table
  summary : t.summary = s.summary

namespace Mirrors

theorem advance (h : t.Mirrors s) (now : Timestamp) :
    (t.advance now).answer = (s.advance now).answer ∧
      (t.advance now).events = (s.advance now).events ∧
      (t.advance now).session.Mirrors (s.advance now).session := by
  have hids (test : Entry → Bool) : t.idsWhere test = s.idsWhere test := by
    simp only [idsWhere, h.table]
  refine ⟨?_, ?_, h.config, ?_, ?_⟩
  · simp only [Session.advance, hids, h.config]
  · simp only [Session.advance, h.config, h.table]
  · simp only [Session.advance, h.config, h.table]
  · simp only [Session.advance, h.config, hids, h.summary]

/-- Of the calls of a closed session only those that run the timers count, and they do what they do in
a session that is open. -/
theorem after (h : t.Mirrors s) (hclosed : s.closed = true) (later : List Call) :
    (t.after (later.filter Call.isAdvance)).Mirrors (s.after later) ∧
      t.history (later.filter Call.isAdvance) = s.history later ∧
      t.reports (later.filter Call.isAdvance) = s.reports later := by
  induction later generalizing s t with
  | nil => exact ⟨h, rfl, rfl⟩
  | cons call rest ih =>
      have hrest := closed_perform hclosed call
      cases hadvance : call.isAdvance with
      | false =>
          -- Only the closed session makes this call, and stays like the other one.
          obtain ⟨htable, hsummary, hevents⟩ := (shut_of_closed hclosed).still call hadvance
          have hsame : t.Mirrors (s.perform call).session :=
            ⟨h.config.trans (s.settings_perform call).1.symm, h.table.trans htable.symm,
              h.summary.trans hsummary.symm⟩
          rw [List.filter_cons_of_neg (by simp [hadvance]), history_cons, hevents]
          have hreport : s.reports (call :: rest) = (s.perform call).session.reports rest := by
            simp [reports, reportsBy, timer?_of_closed hclosed hadvance]
          rw [hreport]
          exact ih hsame hrest
      | true =>
          rw [List.filter_cons_of_pos hadvance]
          cases call with
          | advance now =>
              obtain ⟨hanswer, hevents, hsame⟩ := h.advance now
              obtain ⟨hafter, hhistory, hreports⟩ := ih hsame hrest
              refine ⟨hafter, ?_, ?_⟩
              · exact congrArg₂ (· ++ ·) hevents hhistory
              · exact congrArg₂ List.cons hanswer hreports
          | publish | subscribe | subscribeUri | receive | answerPeer | close | cancel =>
              cases hadvance

end Mirrors

/-! ## Failed calls of an open session -/

/-- The session knows the publication, or its policy refuses it. -/
def Ignores (s : Session) (now : Timestamp) (p : Publication) : Prop :=
  s.table.contains p.id = true ∨ s.policy.valid p now = false

variable {p : Publication} {now : Timestamp} {publications : List Publication}

theorem stores_eq_false_iff : (s.receiveOne p now).answer.stores = false ↔ s.Ignores now p := by
  rw [← Bool.not_eq_true, stores_receiveOne, ← Table.contains_eq_false_iff]
  cases hknown : s.table.contains p.id <;> simp [Ignores, hknown]

theorem Ignores.traceless (h : s.Ignores now p) : (s.receiveOne p now).Traceless s := by
  cases hknown : s.table.contains p.id with
  | true =>
      simp only [receiveOne, hknown, if_true]
      exact ⟨rfl, Event.unheard_notes [.ignoredKnown p.id p.name]⟩
  | false =>
      have hrefused : s.policy.valid p now = false := h.resolve_left (by simp [hknown])
      simp only [receiveOne, hknown, hrefused, Bool.false_eq_true, if_false]
      exact ⟨rfl, (Event.unheard_notes _).append (Event.unheard_notes [.ignoredExpired p.id p.name])⟩

theorem traceless_receiveEach (h : ∀ p ∈ publications, s.Ignores now p) :
    (s.receiveEach publications now).Traceless s := by
  induction publications with
  | nil => exact ⟨rfl, Event.unheard_nil⟩
  | cons p rest ih =>
      have hone := (h p List.mem_cons_self).traceless
      have hrest := ih fun q hq => h q (List.mem_cons_of_mem p hq)
      simp only [receiveEach, hone.session]
      exact ⟨hrest.session, hone.unheard.append hrest.unheard⟩

theorem ignored_iff : (∀ verdict ∈ (s.receiveEach publications now).answer, verdict.stores = false) ↔
    ∀ p ∈ publications, s.Ignores now p := by
  induction publications generalizing s with
  | nil => simp [receiveEach]
  | cons p rest ih =>
      simp only [receiveEach, List.forall_mem_cons, stores_eq_false_iff, ih]
      -- Once the first one is ignored, the rest is compared with the same session.
      apply and_congr_right
      intro hone
      rw [hone.traceless.session]

theorem accepted_ofVerdicts_eq_zero_iff :
    (ReceiveReport.ofVerdicts (s.receiveEach publications now).answer).accepted = 0 ↔
      ∀ p ∈ publications, s.Ignores now p := by
  have hcount := ReceiveReport.accepted_foldl (s.receiveEach publications now).answer {}
  rw [← ignored_iff, ReceiveReport.ofVerdicts, hcount]
  simp [ReceiveReport.accepted, List.countP_eq_zero]

/-- What is published again is a duplicate, and nothing else is. -/
theorem publish_duplicate_iff (hopen : s.closed = false) {name : Name} {payload : Bytes}
    {receipt : Option String} {id : PublicationId} :
    (s.publish name payload now receipt).answer = .ok (.duplicate id) ↔
      id = (Publication.stamped name now payload).id ∧ s.table.contains id = true := by
  simp only [publish, hopen, Bool.false_eq_true, if_false]
  split
  · rename_i hknown
    simp only [Except.ok.injEq, PublishOutcome.duplicate.injEq]
    constructor
    · rintro rfl
      exact ⟨rfl, hknown⟩
    · rintro ⟨rfl, -⟩
      rfl
  · rename_i hnew
    simp only [Except.ok.injEq, reduceCtorEq, false_iff]
    rintro ⟨rfl, hknown⟩
    exact hnew hknown

theorem traceless_publish (hopen : s.closed = false) {name : Name} {payload : Bytes}
    {receipt : Option String}
    (hknown : s.table.contains (Publication.stamped name now payload).id = true) :
    (s.publish name payload now receipt).Traceless s := by
  simp only [publish, hopen, hknown, Bool.false_eq_true, if_false, if_true]
  exact ⟨rfl, Event.unheard_notes [.repeated _ _]⟩

/-! ## The result -/

/-- Closing is final. However a closed session is called later, it refuses, gives no receipt, and puts
nothing in a mailbox, whenever its subscription was made. Only the timers change its table: each entry
is what the latest of their runs leaves of it, as in a session that is open and has the same timers
run. And in an open session what fails leaves no trace: publishing what is known, subscribing to a topic
that cannot be read, and receiving only what is known or refused. -/
theorem closing_final (config : SessionConfig) (policy : Policy) (s : Session) (before : List Call)
    (hopen : openWith config policy = .ok s) :
    let board := s.after before
    (board.closed = true → ∀ later,
      let last := board.after later
      let twin := { board with closed := false }
      let ticks := later.filter Call.isAdvance
      last.Shut ∧
        Event.given (board.history later) = [] ∧
        (∀ (box : Mailbox) (label : String),
          box.takeAll label (board.history later) = box) ∧
        (∀ id, last.table.find? id =
          (board.table.find? id).bind (·.outlasting config.window (latest (board.timers later)))) ∧
        (twin.after ticks).Mirrors last ∧ twin.history ticks = board.history later ∧
        twin.reports ticks = board.reports later) ∧
      (board.closed = false →
        (∀ name payload now receipt id,
          ((board.publish name payload now receipt).answer = .ok (.duplicate id) ↔
            id = (Publication.stamped name now payload).id ∧ board.table.contains id = true) ∧
          ((board.publish name payload now receipt).answer = .ok (.duplicate id) →
            (board.publish name payload now receipt).Traceless board)) ∧
        (∀ topic cause, Name.ofUri topic = .error cause →
          (board.subscribeUri topic).answer = .error (.badTopic cause) ∧
            (board.subscribeUri topic).Traceless board) ∧
        ∀ publications now, ∃ report, (board.receive publications now).answer = .ok report ∧
          (report.accepted = 0 ↔ ∀ p ∈ publications, board.Ignores now p) ∧
          (report.accepted = 0 → (board.receive publications now).Traceless board)) := by
  intro board
  have hconsistent : board.Consistent := Consistent.of_openWith hopen before
  have hconfig : board.config = config := (settings_of_openWith hopen before).1
  refine ⟨?_, ?_⟩
  · intro hclosed later last twin ticks
    have hunheard := hconsistent.unheard_history hclosed later
    have houtlasts := board.outlasts_self.after hconsistent hclosed later
    have hmirrors : twin.Mirrors board := ⟨rfl, rfl, rfl⟩
    refine ⟨shut_of_closed (closed_after hclosed later), hunheard.receipts, ?_, ?_,
      hmirrors.after hclosed later⟩
    · exact fun box label => hunheard.takeAll label box
    · intro id
      have hid := houtlasts id
      rw [max_eq_right bot_le, (settings_after board later).1, hconfig] at hid
      exact hid
  · intro hlive
    refine ⟨?_, ?_, ?_⟩
    · intro name payload now receipt id
      refine ⟨publish_duplicate_iff hlive, fun hanswer => ?_⟩
      obtain ⟨rfl, hknown⟩ := (publish_duplicate_iff hlive).mp hanswer
      exact traceless_publish hlive hknown
    · intro topic cause hcause
      simp only [subscribeUri, hcause]
      exact ⟨trivial, rfl, Event.unheard_nil⟩
    · intro publications now
      simp only [receive, hlive, Bool.false_eq_true, if_false]
      refine ⟨_, rfl, accepted_ofVerdicts_eq_zero_iff, ?_⟩
      intro hnone
      obtain ⟨hsession, hunheard⟩ := traceless_receiveEach (accepted_ofVerdicts_eq_zero_iff.mp hnone)
      exact ⟨hsession, hunheard⟩

/-- A publication with a receipt, and a subscription that covers it. Closed, the session takes another
subscription and forgets the publication in time; nobody is told. While it was open, publishing again
and receiving what it had left no trace. -/
theorem closing_final_subscribed :
    let s := fresh {} (.lifecycle {})
    let p := Publication.stamped .root .zero [1]
    let before : List Call := [.publish .root [1] .zero (some "sent"), .subscribe .root]
    let later : List Call := [.subscribe .root, .receive [⟨.root, [2]⟩] ⟨5⟩, .advance ⟨2000000⟩]
    let live := s.after before
    let board := s.after (before ++ [.close])
    let box : Mailbox := ⟨some ("here", 1), .root, []⟩
    openWith {} (.lifecycle {}) = .ok s ∧ live.closed = false ∧ board.closed = true ∧
      (live.publish .root [1] .zero none).answer = .ok (.duplicate p.id) ∧
      (live.publish .root [1] .zero none).session = live ∧
      (live.receive [p, p] ⟨3⟩).session = live ∧
      board.table.contains p.id = true ∧
      Event.given (board.history later) = [] ∧
      box.takeAll "here" (board.history later) = box ∧
      (board.after later).table.contains p.id = false := by
  intro s p before later live board box
  have hopen : openWith {} (.lifecycle {}) = .ok s := rfl
  have hknown : live.table.contains p.id = true := by decide +kernel
  have hfind : board.table.find? p.id = some (.arrival p true .zero none) := by decide +kernel
  obtain ⟨-, hfailed⟩ := closing_final {} (.lifecycle {}) s before hopen
  obtain ⟨hpublish, -, hreceive⟩ := hfailed rfl
  obtain ⟨hfinal, -⟩ := closing_final {} (.lifecycle {}) s (before ++ [.close]) hopen
  obtain ⟨-, hgiven, hboxes, htable, -⟩ := hfinal rfl later
  obtain ⟨hanswer, htraceless⟩ := hpublish .root [1] .zero none p.id
  obtain ⟨report, -, hignored, hunchanged⟩ := hreceive [p, p] ⟨3⟩
  have hdue : (Timestamp.zero.after (Window.lifetime {}).double).level ≤
      latest (board.timers later) := by
    have hlatest : latest (board.timers later) = Timestamp.level ⟨2000000⟩ := rfl
    rw [hlatest, Timestamp.level_le_level]
    decide
  have hforgotten : (board.after later).table.find? p.id = none := by
    rw [htable p.id, hfind, Option.bind_some, Entry.outlasting]
    exact if_pos hdue
  have hall : ∀ q ∈ [p, p], live.Ignores ⟨3⟩ q := by
    intro q hmem
    have hsame : q = p := by simpa using hmem
    exact Or.inl (hsame ▸ hknown)
  refine ⟨hopen, rfl, rfl, hanswer.mpr ⟨rfl, hknown⟩, ?_, ?_, ?_, hgiven, hboxes box "here", ?_⟩
  · exact (htraceless (hanswer.mpr ⟨rfl, hknown⟩)).session
  · exact (hunchanged (hignored.mpr hall)).session
  · exact Table.contains_iff.mpr ⟨_, hfind⟩
  · exact Table.contains_eq_false_iff.mpr hforgotten

end Session

end Bulletin
