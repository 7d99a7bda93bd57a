import Bulletin.Proofs.Answer.Reordering
import Bulletin.Proofs.Roster
import Bulletin.Proofs.Storing

/-!
# Intake — what receiving a list does, whatever its order

A session takes a list in one by one, and what it stores decides what it makes of the rest: a second
publication of an id is known, one that follows a refused one is not. This file says what comes out in
terms of the list as a whole:

* `Session.mem_taken_iff` — what is stored is the first valid publication of an id that was unknown;
* `Session.Gains` — the table and the summary of a session and of what it has become;
* `Session.incoming_perm`, `Session.perm_taken` — without collisions the order of the list does not
  decide what is stored;
* `Session.count_refused` — nor how much is refused;
* `Session.reorders_receiveEach` — so the sessions differ in the order of their rows only;
* `Session.receive_exact` — table, summary, report and queues, for every list and every order of it.
-/

namespace Bulletin

/-- Tables that find the same have the same rows, in some order. -/
theorem Table.perm_rows {t t' : Table} (h : ∀ id, t.find? id = t'.find? id) :
    t.rows.Perm t'.rows := by
  refine (List.perm_ext_iff_of_nodup t.distinct.of_map t'.distinct.of_map).mpr ?_
  rintro ⟨id, e⟩
  calc
    (id, e) ∈ t.rows ↔ t.find? id = some e := mem_rows_iff
    _ ↔ t'.find? id = some e := by rw [h id]
    _ ↔ (id, e) ∈ t'.rows := mem_rows_iff.symm

namespace ReceiveReport

theorem length_eq_counts (verdicts : List Verdict) :
    verdicts.length =
      verdicts.count .delivered + verdicts.count .unclaimed + verdicts.count .known +
        verdicts.count .refused := by
  induction verdicts with
  | nil => rfl
  | cons verdict rest ih =>
      rw [List.length_cons, ih]
      cases verdict with
      | delivered | unclaimed | known | refused =>
          simp only [List.count_cons_self, List.count_cons_of_ne, ne_eq, reduceCtorEq,
            not_false_eq_true]
          omega

end ReceiveReport

theorem Publication.NoCollision.perm {publications others : List Publication}
    (h : NoCollision publications) (hperm : publications.Perm others) : NoCollision others := by
  intro p hp q hq
  exact h p (hperm.mem_iff.mpr hp) q (hperm.mem_iff.mpr hq)

namespace Session

variable {s : Session} {publications others : List Publication} {p : Publication}
  {now : Timestamp} {id : PublicationId}

/-! ## What is stored -/

/-- Under an unknown id the list stores what comes in first. -/
theorem find?_taken_eq_incoming (hnew : s.table.find? id = none) :
    (s.taken publications now).find? (·.id = id) = s.incoming publications now id := by
  -- Both name the publication of the entry that is there afterwards.
  have hentry := (s.find?_taken publications now id).symm.trans
    (s.find?_receiveEach publications now id)
  rw [hnew, Option.none_or, Option.none_or] at hentry
  refine Option.map_injective ?_ hentry
  intro p q hsame
  exact congrArg Entry.publication hsame

theorem mem_taken_iff :
    p ∈ s.taken publications now ↔
      s.table.find? p.id = none ∧ s.incoming publications now p.id = some p := by
  constructor
  · intro hmem
    have hnew := new_of_mem_taken hmem
    refine ⟨hnew, ?_⟩
    rw [← find?_taken_eq_incoming hnew]
    exact find?_eq_some_of_nodup hmem (s.nodup_taken publications now)
  · rintro ⟨hnew, hincoming⟩
    rw [← find?_taken_eq_incoming hnew] at hincoming
    exact List.mem_of_find?_eq_some hincoming

theorem exists_incoming_iff :
    (∃ p, s.incoming publications now id = some p) ↔
      ∃ p ∈ publications, p.id = id ∧ s.policy.valid p now = true := by
  constructor
  · rintro ⟨p, hincoming⟩
    rcases incoming_eq_some hincoming with ⟨hmem, hid, hvalid⟩
    exact ⟨p, hmem, hid, hvalid⟩
  · rintro ⟨p, hmem, hid, hvalid⟩
    refine Option.isSome_iff_exists.mp (List.find?_isSome.mpr ⟨p, hmem, ?_⟩)
    simp [hid, hvalid]

theorem mem_ids_taken_iff :
    id ∈ (s.taken publications now).map Publication.id ↔
      s.table.find? id = none ∧
        ∃ p ∈ publications, p.id = id ∧ s.policy.valid p now = true := by
  rw [List.mem_map, ← exists_incoming_iff]
  constructor
  · rintro ⟨p, hmem, rfl⟩
    rcases mem_taken_iff.mp hmem with ⟨hnew, hincoming⟩
    exact ⟨hnew, p, hincoming⟩
  · rintro ⟨hnew, p, hincoming⟩
    rcases incoming_eq_some hincoming with ⟨-, rfl, -⟩
    exact ⟨p, mem_taken_iff.mpr ⟨hnew, hincoming⟩, rfl⟩

/-! ## Table and summary -/

/-- What a session has become by receiving the publications: no entry is touched, and each of the ids
that it gains has an entry with the first valid publication of that id. -/
structure Gains (s t : Session) (publications : List Publication) (now : Timestamp)
    (gained : List PublicationId) : Prop where
  kept : ∀ id e, s.table.find? id = some e → t.table.find? id = some e
  stored : ∀ id, s.table.find? id = none →
    t.table.find? id =
      (publications.find? fun p => p.id = id ∧ s.policy.valid p now = true).map fun p =>
        { publication := p, own := false, expired := false, active := true, arrived := now,
          receipt := none }
  distinct : gained.Nodup
  mem_gained : ∀ id, id ∈ gained ↔
    s.table.find? id = none ∧ ∃ p ∈ publications, p.id = id ∧ s.policy.valid p now = true
  offered : ∀ id, id ∈ t.summary.ids ↔ id ∈ s.summary.ids ∨ id ∈ gained
  unoffered : ∀ id ∈ gained, id ∉ s.summary.ids

theorem gains_receiveEach (hoffered : s.table.OfferedBy s.summary)
    (publications : List Publication) (now : Timestamp) :
    s.Gains (s.receiveEach publications now).session publications now
      ((s.taken publications now).map Publication.id) where
  kept := by
    intro id e hfind
    rw [find?_receiveEach, hfind, Option.some_or]
  stored := by
    intro id hnew
    rw [find?_receiveEach, hnew, Option.none_or]
    simp only [incoming, Bool.decide_and, Bool.decide_eq_true]
    rfl
  distinct := s.nodup_taken publications now
  mem_gained := fun id => mem_ids_taken_iff
  offered := by
    intro id
    rw [offered_receiveEach hoffered publications now id, hoffered id, mem_ids_taken_iff,
      ← exists_incoming_iff, find?_receiveEach]
    -- An id that was there is offered as before; an entry that is new is active.
    cases hfind : s.table.find? id with
    | some e => simp
    | none =>
        cases hincoming : s.incoming publications now id with
        | none => simp
        | some p => simp [Entry.arrival]
  unoffered := by
    intro id hmem hon
    rcases (hoffered id).mp hon with ⟨e, hfind, -⟩
    have hnew := (mem_ids_taken_iff.mp hmem).1
    rw [hfind] at hnew
    cases hnew

/-! ## The order of the list -/

/-- Without collisions there is one publication of an id, so any is the first. -/
theorem incoming_eq_some_iff (hdistinct : Publication.NoCollision publications) :
    s.incoming publications now id = some p ↔
      p ∈ publications ∧ p.id = id ∧ s.policy.valid p now = true := by
  constructor
  · exact incoming_eq_some
  · rintro ⟨hmem, hid, hvalid⟩
    rcases exists_incoming_iff.mpr ⟨p, hmem, hid, hvalid⟩ with ⟨q, hincoming⟩
    rcases incoming_eq_some hincoming with ⟨hq, hqid, -⟩
    rw [hincoming, hdistinct q hq p hmem (hqid.trans hid.symm)]

theorem incoming_perm (hdistinct : Publication.NoCollision publications)
    (hperm : publications.Perm others) (s : Session) (now : Timestamp) (id : PublicationId) :
    s.incoming others now id = s.incoming publications now id := by
  apply Option.ext
  intro p
  rw [incoming_eq_some_iff (hdistinct.perm hperm), incoming_eq_some_iff hdistinct, hperm.mem_iff]

theorem perm_taken (hdistinct : Publication.NoCollision publications)
    (hperm : publications.Perm others) (s : Session) (now : Timestamp) :
    (s.taken others now).Perm (s.taken publications now) := by
  refine (List.perm_ext_iff_of_nodup (s.nodup_taken others now).of_map
    (s.nodup_taken publications now).of_map).mpr ?_
  intro p
  rw [mem_taken_iff, mem_taken_iff, incoming_perm hdistinct hperm]

/-- The subscriptions are purged once if anything is stored, and purging again does nothing. -/
theorem subscriptions_receiveEach (s : Session) (publications : List Publication)
    (now : Timestamp) :
    (s.receiveEach publications now).session.subscriptions =
      if s.taken publications now = [] then s.subscriptions
      else s.subscriptions.filter (·.live) := by
  induction publications generalizing s with
  | nil => rfl
  | cons p rest ih =>
      have hrest : (s.receiveEach (p :: rest) now).session.subscriptions = _ :=
        ih (s.receiveOne p now).session
      rw [hrest, taken_cons]
      cases hstores : (s.receiveOne p now).answer.stores with
      | false => simp [receiveOne_of_ignored hstores]
      | true =>
          rcases stores_receiveOne.mp hstores with ⟨hnew, hvalid⟩
          have hpurged : (s.receiveOne p now).session.subscriptions =
              s.subscriptions.filter (·.live) := by
            rw [receiveOne_of_accepted (Table.contains_eq_false_iff.mpr hnew) hvalid]
          simp [hpurged, List.filter_filter]

theorem nextToken_receiveEach (s : Session) (publications : List Publication) (now : Timestamp) :
    (s.receiveEach publications now).session.nextToken = s.nextToken := by
  refine receiveEach_induction (P := fun t => t.nextToken = s.nextToken) ?_ rfl publications
  intro t p ht
  exact (t.subscriptions_receiveOne p now).2.trans ht

/-- Without collisions, a list in another order leaves the same session but for the order of the
rows. -/
theorem reorders_receiveEach (hoffered : s.table.OfferedBy s.summary)
    (hdistinct : Publication.NoCollision publications) (hperm : publications.Perm others)
    (now : Timestamp) :
    (s.receiveEach others now).session.Reorders (s.receiveEach publications now).session := by
  have hfind (id : PublicationId) :
      (s.receiveEach others now).session.table.find? id =
        (s.receiveEach publications now).session.table.find? id := by
    rw [find?_receiveEach, find?_receiveEach, incoming_perm hdistinct hperm]
  have hsummary : (s.receiveEach others now).session.summary =
      (s.receiveEach publications now).session.summary := by
    refine Summary.eq_of_mem_iff ?_
    intro id
    rw [offered_receiveEach hoffered others now id, offered_receiveEach hoffered publications now id,
      hfind id]
  have hnothing : s.taken others now = [] ↔ s.taken publications now = [] := by
    have hsame := perm_taken hdistinct hperm s now
    rw [← List.length_eq_zero_iff, hsame.length_eq, List.length_eq_zero_iff]
  rcases s.settings_receiveEach others now with ⟨hconfig, hpolicy, hclosed⟩
  rcases s.settings_receiveEach publications now with ⟨hconfig', hpolicy', hclosed'⟩
  refine ⟨Table.perm_rows hfind, hconfig.trans hconfig'.symm, hpolicy.trans hpolicy'.symm, hsummary,
    ?_, ?_, hclosed.trans hclosed'.symm⟩
  · simp only [subscriptions_receiveEach, hnothing]
  · rw [nextToken_receiveEach, nextToken_receiveEach]

/-! ## The report -/

theorem answer_receiveOne_eq_refused_iff :
    (s.receiveOne p now).answer = .refused ↔
      s.table.find? p.id = none ∧ s.policy.valid p now = false := by
  rw [← Table.contains_eq_false_iff]
  cases hknown : s.table.contains p.id with
  | true => simp [receiveOne, hknown]
  | false =>
      cases hvalid : s.policy.valid p now with
      | false => simp [receiveOne, hknown, hvalid]
      | true =>
          have hstores := stores_receiveOne.mpr ⟨Table.contains_eq_false_iff.mp hknown, hvalid⟩
          constructor
          · intro hrefused
            rw [hrefused] at hstores
            cases hstores
          · rintro ⟨-, hinvalid⟩
            cases hinvalid

/-- An invalid publication stays unknown, unless another one of its id comes in. -/
theorem unknown_receiveOne_iff {q : Publication} (hsame : p.id = q.id → p = q)
    (hinvalid : s.policy.valid q now = false) :
    (s.receiveOne p now).session.table.find? q.id = none ↔ s.table.find? q.id = none := by
  have hnothing : s.incoming [p] now q.id = none := by
    refine Option.eq_none_iff_forall_ne_some.mpr ?_
    intro first hincoming
    rcases incoming_eq_some hincoming with ⟨hfirst, hid, hvalid⟩
    rw [List.mem_singleton.mp hfirst] at hid hvalid
    rw [hsame hid, hinvalid] at hvalid
    cases hvalid
  rw [find?_receiveOne, hnothing, Option.map_none, Option.or_none]

/-- Without collisions, what is refused is what was unknown at the start and is invalid. -/
theorem count_refused (hdistinct : Publication.NoCollision publications) (s : Session)
    (now : Timestamp) :
    (s.receiveEach publications now).answer.count .refused =
      publications.countP fun p => s.table.find? p.id = none ∧ s.policy.valid p now = false := by
  induction publications generalizing s with
  | nil => rfl
  | cons p rest ih =>
      have hlater : Publication.NoCollision rest := by
        intro q hq q' hq'
        exact hdistinct q (List.mem_cons_of_mem p hq) q' (List.mem_cons_of_mem p hq')
      have hcount : (s.receiveEach (p :: rest) now).answer.count .refused = _ := List.count_cons
      rw [hcount, ih hlater, List.countP_cons]
      -- The session has changed by then, but not for what it refuses.
      have hrest : rest.countP (fun q => (s.receiveOne p now).session.table.find? q.id = none ∧
            (s.receiveOne p now).session.policy.valid q now = false) =
          rest.countP fun q => s.table.find? q.id = none ∧ s.policy.valid q now = false := by
        refine List.countP_congr ?_
        intro q hq
        have hsame : p.id = q.id → p = q :=
          hdistinct p List.mem_cons_self q (List.mem_cons_of_mem p hq)
        simp only [decide_eq_true_eq, (s.settings_receiveOne p now).2.1]
        exact and_congr_left fun hinvalid => unknown_receiveOne_iff hsame hinvalid
      rw [hrest]
      simp only [beq_iff_eq, answer_receiveOne_eq_refused_iff, decide_eq_true_eq]

theorem length_answer_receiveEach (s : Session) (publications : List Publication)
    (now : Timestamp) :
    (s.receiveEach publications now).answer.length = publications.length := by
  induction publications generalizing s with
  | nil => rfl
  | cons p rest ih => exact congrArg (· + 1) (ih (s.receiveOne p now).session)

theorem eq_ofVerdicts_of_receive (hopen : s.closed = false) {report : ReceiveReport}
    (hanswer : (s.receive publications now).answer = .ok report) :
    report = .ofVerdicts (s.receiveEach publications now).answer := by
  simpa [receive, hopen, eq_comm] using hanswer

theorem total_receive (hopen : s.closed = false) {report : ReceiveReport}
    (hanswer : (s.receive publications now).answer = .ok report) :
    report.delivered + report.unclaimed + report.known + report.refused = publications.length := by
  rw [eq_ofVerdicts_of_receive hopen hanswer, ReceiveReport.ofVerdicts_eq,
    ← length_answer_receiveEach s publications now]
  exact (ReceiveReport.length_eq_counts _).symm

theorem Lists.stored_receive {r : Roster} (h : s.Lists r) (hopen : s.closed = false)
    {report : ReceiveReport} (hanswer : (s.receive publications now).answer = .ok report) :
    report.delivered + report.unclaimed = (s.taken publications now).length := by
  rcases h.report_receive hopen publications now with ⟨same, hsame, hdelivered, hunclaimed⟩
  rw [hanswer] at hsame
  cases hsame
  rw [hdelivered, hunclaimed, Nat.add_comm,
    List.length_eq_countP_add_countP fun p => decide (r.recipients p.name = [])]
  simp

theorem refused_receive (hopen : s.closed = false)
    (hdistinct : Publication.NoCollision publications) {report : ReceiveReport}
    (hanswer : (s.receive publications now).answer = .ok report) :
    report.refused =
      publications.countP fun p => s.table.find? p.id = none ∧ s.policy.valid p now = false := by
  rw [eq_ofVerdicts_of_receive hopen hanswer, ReceiveReport.ofVerdicts_eq]
  exact count_refused hdistinct s now

/-- Without collisions, a list in another order has the same report. -/
theorem Lists.answer_receive_perm {r : Roster} (h : s.Lists r) (hopen : s.closed = false)
    (hdistinct : Publication.NoCollision publications) (hperm : publications.Perm others)
    (now : Timestamp) :
    (s.receive others now).answer = (s.receive publications now).answer := by
  rcases h.report_receive hopen publications now with ⟨report, hanswer, hdelivered, hunclaimed⟩
  rcases h.report_receive hopen others now with ⟨report', hanswer', hdelivered', hunclaimed'⟩
  have htaken := perm_taken hdistinct hperm s now
  rw [htaken.countP_eq, ← hdelivered] at hdelivered'
  rw [htaken.countP_eq, ← hunclaimed] at hunclaimed'
  have hrefused : report'.refused = report.refused := by
    rw [refused_receive hopen (hdistinct.perm hperm) hanswer',
      refused_receive hopen hdistinct hanswer, hperm.countP_eq]
  -- What is neither stored nor refused was known.
  have hknown : report'.known = report.known := by
    have htotal := total_receive hopen hanswer
    have htotal' := total_receive hopen hanswer'
    have hlength := hperm.length_eq
    omega
  have hsame : report' = report := by
    cases report
    cases report'
    exact (ReceiveReport.mk.injEq ..).mpr ⟨hdelivered', hunclaimed', hknown, hrefused⟩
  rw [hanswer, hanswer', hsame]

/-! ## The queues -/

theorem Lists.inbox_receive {r : Roster} (h : s.Lists r) (hopen : s.closed = false) (token : Nat)
    (publications : List Publication) (now : Timestamp) :
    Event.inbox token (s.receive publications now).events =
      (s.taken publications now).flatMap (r.share token) := by
  have hinbox := h.inbox_perform token (.receive publications now)
  rw [acceptedBy, hopen] at hinbox
  exact hinbox

/-- Without collisions, a list in another order queues the same, in some order. -/
theorem Lists.perm_queue {r : Roster} (h : s.Lists r) (hopen : s.closed = false)
    (hdistinct : Publication.NoCollision publications) (hperm : publications.Perm others)
    (now : Timestamp) {box : Mailbox} {label : String} {token : Nat}
    (hsource : box.source = some (label, token)) :
    (box.takeAll label (s.receive others now).events).queue.Perm
      (box.takeAll label (s.receive publications now).events).queue := by
  rw [Mailbox.queue_takeAll hsource, Mailbox.queue_takeAll hsource, h.inbox_receive hopen,
    h.inbox_receive hopen]
  exact ((perm_taken hdistinct hperm s now).flatMap_right _).append_left box.queue

/-! ## Receiving -/

/-- What receiving a list does to an open session, however it was reached.

No entry is touched. The ids that are gained are those unknown before that a valid publication of the
list has; each gets an entry with the first such publication, and the summary gains exactly them. The
report counts every publication once, and the gained ids as delivered or unclaimed. If no two different
publications of the list have the same id, the list in any other order leaves the same session but for
the order of the rows, with the same report, and every subscription has the same queue but for its
order. -/
theorem receive_exact (config : SessionConfig) (policy : Policy) (s : Session)
    (hopen : openWith config policy = .ok s) (before : List Call) :
    let board := s.after before
    board.closed = false → ∀ (publications : List Publication) (now : Timestamp),
      let received := board.receive publications now
      ∃ report gained, received.answer = .ok report ∧
        board.Gains received.session publications now gained ∧
        report.delivered + report.unclaimed = gained.length ∧
        report.delivered + report.unclaimed + report.known + report.refused =
          publications.length ∧
        (Publication.NoCollision publications → ∀ others, publications.Perm others →
          let shuffled := board.receive others now
          shuffled.session.Reorders received.session ∧
            (∀ id, shuffled.session.table.find? id = received.session.table.find? id) ∧
            shuffled.answer = .ok report ∧
            ∀ (box : Mailbox) (label : String) (token : Nat), box.source = some (label, token) →
              (box.takeAll label shuffled.events).queue.Perm
                (box.takeAll label received.events).queue) := by
  have hconsistent := Consistent.of_openWith hopen before
  rcases openWith_eq_ok hopen with ⟨-, rfl⟩
  intro board hclosed publications now received
  have hlists : board.Lists (Roster.empty.after before) :=
    (Lists.fresh config policy).after before
  have hoffered : board.table.OfferedBy board.summary := hconsistent.offered
  rcases hlists.report_receive hclosed publications now with ⟨report, hanswer, -⟩
  refine ⟨report, (board.taken publications now).map Publication.id, hanswer, ?_, ?_,
    total_receive hclosed hanswer, ?_⟩
  · have hgains := gains_receiveEach hoffered publications now
    rw [← session_receive hclosed publications now] at hgains
    exact hgains
  · rw [List.length_map]
    exact hlists.stored_receive hclosed hanswer
  · intro hdistinct others hperm shuffled
    have hreorders := reorders_receiveEach hoffered hdistinct hperm now
    rw [← session_receive hclosed, ← session_receive hclosed] at hreorders
    refine ⟨hreorders, hreorders.find?, ?_, ?_⟩
    · exact (hlists.answer_receive_perm hclosed hdistinct hperm now).trans hanswer
    · intro box label token hsource
      exact hlists.perm_queue hclosed hdistinct hperm now hsource

/-- A list with a duplicate, a publication from the future and one of the session's own, taken in
backwards: the own entry keeps its receipt, and the report is that of the list. -/
theorem receive_exact_backwards :
    let s := fresh {} (.lifecycle {})
    let a := Name.root.appendGeneric [97]
    let own := Publication.stamped a (.ofNat 5) []
    let p := Publication.stamped a (.ofNat 7) [1]
    let q := Publication.stamped .root (.ofNat 8) []
    let early := Publication.stamped a (.ofNat 9000000) []
    let before : List Call :=
      [.subscribe a, .subscribe a, .cancel 0, .publish a [] (.ofNat 5) (some "sent")]
    let board := s.after before
    let publications := [own, p, q, p, early]
    let backwards := publications.reverse
    let box : Mailbox := ⟨some ("here", 1), a, []⟩
    openWith {} (.lifecycle {}) = .ok s ∧ board.closed = false ∧
      Publication.NoCollision publications ∧
      (board.receive backwards (.ofNat 9)).answer = .ok ⟨1, 1, 2, 1⟩ ∧
      (board.receive backwards (.ofNat 9)).session.table.find? own.id =
        some (.arrival own true (.ofNat 5) (some "sent")) ∧
      (board.receive backwards (.ofNat 9)).session.subscriptions = [⟨1, a, true⟩] ∧
      (box.takeAll "here" (board.receive backwards (.ofNat 9)).events).queue.Perm [p] := by
  intro s a own p q early before board publications backwards box
  unfold board
  have hdistinct : Publication.NoCollision publications := by
    unfold Publication.NoCollision
    decide +kernel
  have hown : (s.after before).table.find? own.id =
      some (.arrival own true (.ofNat 5) (some "sent")) := by
    decide +kernel
  have hforwards :
      ((s.after before).receive publications (.ofNat 9)).answer = .ok ⟨1, 1, 2, 1⟩ ∧
        ((s.after before).receive publications (.ofNat 9)).session.subscriptions =
          [⟨1, a, true⟩] ∧
        (box.takeAll "here" ((s.after before).receive publications (.ofNat 9)).events).queue =
          [p] := by
    decide +kernel
  rcases hforwards with ⟨hreport, hpurged, hqueued⟩
  rcases receive_exact {} (.lifecycle {}) s rfl before rfl publications (.ofNat 9) with
    ⟨report, gained, hanswer, hgains, -, -, horder⟩
  rcases horder hdistinct backwards (List.reverse_perm publications).symm with
    ⟨hreorders, hfind, hsame, hqueue⟩
  refine ⟨rfl, rfl, hdistinct, ?_, ?_, ?_, ?_⟩
  · exact hsame.trans (hanswer.symm.trans hreport)
  · exact (hfind own.id).trans (hgains.kept own.id _ hown)
  · exact hreorders.subscriptions.trans hpurged
  · exact (hqueue box "here" 1 rfl).trans (List.Perm.of_eq hqueued)

end Session

end Bulletin
