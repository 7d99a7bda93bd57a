import Bulletin.Proofs.Invariant
import Bulletin.Proofs.Storing

/-!
# Accounts — the reports of the timers balance what is stored

Every run of the timers reports what has expired, what has left the summary and what has left the
table. Over a run of calls these reports keep accounts of the entries:

* `Session.reports` — the reports of all runs of the timers, those before an answer included;
* `TimerReport.Ascending` — a report is in order of ids, whatever the order of the rows;
* `Tells` — a part of the reports tells which entries stop passing a test;
* `Tells.perform`, `Tells.after` — what is stored is reported, or it still passes the test;
* `Session.reports_balance` — the accounts of the three parts.
-/

namespace Bulletin

/-! ## Reports in order -/

theorem PublicationId.le_total (a b : PublicationId) : (a.le b || b.le a) = true := by
  have hswap : compare b a = (compare a b).swap := Std.OrientedCmp.eq_swap
  unfold le
  rw [hswap]
  cases compare a b with
  | lt => rfl
  | eq => rfl
  | gt => rfl

theorem PublicationId.before_of_le {a b : PublicationId} (hle : a.le b = true) (hne : a ≠ b) :
    a.Before b := by
  unfold le at hle
  cases hcompare : compare a b with
  | lt => exact hcompare
  | eq => exact absurd (compare_eq_iff.mp hcompare) hne
  | gt =>
      rw [hcompare] at hle
      cases hle

/-- The keys of a table ascend, whatever order its rows have. -/
theorem Table.ascending_byId (t : Table) : (t.byId.map Prod.fst).Pairwise PublicationId.Before := by
  have hsorted : t.byId.Pairwise fun a b => a.1.le b.1 = true :=
    List.pairwise_mergeSort (fun _ _ _ => Std.TransCmp.isLE_trans)
      (fun a b => PublicationId.le_total a.1 b.1) t.rows
  have hdistinct : t.byId.Pairwise fun a b => a.1 ≠ b.1 := List.pairwise_map.mp t.nodup_keys_byId
  apply List.pairwise_map.mpr
  exact hsorted.imp₂ (fun _ _ => PublicationId.before_of_le) hdistinct

/-- Each part of a report is strictly ascending. -/
structure TimerReport.Ascending (r : TimerReport) : Prop where
  expired : r.expired.Pairwise PublicationId.Before
  unpublished : r.unpublished.Pairwise PublicationId.Before
  forgotten : r.forgotten.Pairwise PublicationId.Before

namespace Session

variable {s : Session}

theorem ascending_idsWhere (s : Session) (test : Entry → Bool) :
    (s.idsWhere test).Pairwise PublicationId.Before :=
  s.table.ascending_byId.sublist (List.filter_sublist.map Prod.fst)

theorem ascending_advance (s : Session) (now : Timestamp) : (s.advance now).answer.Ascending where
  expired := s.ascending_idsWhere (·.expires s.config.window now)
  unpublished := s.ascending_idsWhere (·.unpublishes s.config.window now)
  forgotten := s.ascending_idsWhere (·.isForgotten s.config.window now)

/-- The ids that a test picks out depend on the entries, and not on the order of the rows. -/
theorem idsWhere_congr {t : Session} (hsame : ∀ id, t.table.find? id = s.table.find? id)
    (test : Entry → Bool) : t.idsWhere test = s.idsWhere test := by
  -- Ascending lists with the same members are the same, as for summaries.
  have hsummary : (⟨t.idsWhere test, t.ascending_idsWhere test⟩ : Summary) =
      ⟨s.idsWhere test, s.ascending_idsWhere test⟩ := by
    apply Summary.eq_of_mem_iff
    intro id
    simp only [mem_idsWhere_iff, hsame]
  exact congrArg Summary.ids hsummary

theorem report_congr {t : Session} (hwindow : t.config.window = s.config.window)
    (hsame : ∀ id, t.table.find? id = s.table.find? id) (now : Timestamp) :
    (t.advance now).answer = (s.advance now).answer := by
  simp only [advance, hwindow, idsWhere_congr hsame]

/-! ## Reports of a run -/

def reportsBy (s : Session) (call : Call) : List TimerReport :=
  (s.timer? call).toList.map fun now => (s.advance now).answer

def reports (s : Session) : List Call → List TimerReport
  | [] => []
  | call :: rest => s.reportsBy call ++ (s.perform call).session.reports rest

theorem ascending_reports {calls : List Call} {r : TimerReport} (hmem : r ∈ s.reports calls) :
    r.Ascending := by
  induction calls generalizing s with
  | nil => cases hmem
  | cons call rest ih =>
      rcases List.mem_append.mp hmem with hcall | hrest
      · rcases List.mem_map.mp hcall with ⟨now, -, rfl⟩
        exact s.ascending_advance now
      · exact ih hrest

end Session

/-! ## Counting one id -/

/-- One if there is an entry that passes a test. -/
def tally (test : Entry → Bool) (o : Option Entry) : ℕ :=
  (o.any test).toNat

theorem Session.count_idsWhere (s : Session) (test : Entry → Bool) (id : PublicationId) :
    (s.idsWhere test).count id = tally test (s.table.find? id) := by
  have hnodup : (s.idsWhere test).Nodup := (s.ascending_idsWhere test).imp fun h => h.ne
  have hmem : id ∈ s.idsWhere test ↔ (s.table.find? id).any test = true := by
    rw [mem_idsWhere_iff, Option.any_eq_true]
  rw [hnodup.count, tally]
  cases hany : (s.table.find? id).any test with
  | true => exact if_pos (hmem.mpr hany)
  | false => exact if_neg fun h => by simp [hmem.mp h] at hany

/-- Whether an entry passes a test no longer once its timers have run to `now`. -/
def Entry.stops (test : Entry → Bool) (w : Window) (now : Timestamp) (e : Entry) : Bool :=
  test e && !(e.aged w now).any test

/-- A part of the reports tells which entries stop passing a test that all arrivals pass, that does
not ask for receipts, and that no entry passes again. -/
structure Tells (part : TimerReport → List PublicationId) (test : Entry → Bool) : Prop where
  arrival : ∀ p own t receipt, test (.arrival p own t receipt) = true
  settled : ∀ e, test e.settled = test e
  never_again : ∀ {e e' w now}, e.aged w now = some e' → test e' = true → test e = true
  report : ∀ (s : Session) now,
    part (s.advance now).answer = s.idsWhere (Entry.stops test s.config.window now)

namespace Tells

variable {part : TimerReport → List PublicationId} {test : Entry → Bool} {s : Session} {call : Call}

theorem tally_settled (h : Tells part test) (o : Option Entry) :
    tally test (o.map Entry.settled) = tally test o := by
  cases o with
  | none => rfl
  | some e => exact congrArg Bool.toNat (h.settled e)

/-- An entry that passes the test stops at `now`, or passes it still. -/
theorem tally_aged (h : Tells part test) (w : Window) (now : Timestamp) (o : Option Entry) :
    tally test o = tally (Entry.stops test w now) o + tally test (o.bind (·.aged w now)) := by
  cases o with
  | none => rfl
  | some e =>
      simp only [tally, Entry.stops, Option.any_some, Option.bind_some]
      cases haged : e.aged w now with
      | none => simp
      | some e' =>
          cases hlater : test e' with
          | false => simp [hlater]
          | true => simp [hlater, h.never_again haged hlater]

theorem perform (h : Tells part test) (s : Session) (call : Call) (id : PublicationId) :
    ((s.storedBy call).map Publication.id).count id + tally test (s.table.find? id) =
      ((s.reportsBy call).flatMap part).count id +
        tally test ((s.perform call).session.table.find? id) := by
  cases htimer : s.timer? call with
  | some now =>
      -- Timers store nothing, so what they report is what no longer passes.
      rcases Session.find?_of_timer htimer id with ⟨hstored, hfind⟩
      have hreport : (s.reportsBy call).flatMap part =
          s.idsWhere (Entry.stops test s.config.window now) := by
        simp [Session.reportsBy, htimer, h.report]
      have hlater : tally test ((s.table.find? id).bind (·.aged s.config.window now)) =
          tally test ((s.perform call).session.table.find? id) := by
        rw [← h.tally_settled, ← hfind, h.tally_settled]
      rw [hstored, hreport, s.count_idsWhere, ← hlater, List.map_nil, List.count_nil, Nat.zero_add]
      exact h.tally_aged s.config.window now (s.table.find? id)
  | none =>
      -- Nothing is reported, and a call stores an id at most once and only if it was unknown.
      have hreport : s.reportsBy call = [] := by simp [Session.reportsBy, htimer]
      rw [hreport, List.flatMap_nil, List.count_nil, Nat.zero_add]
      by_cases hmem : id ∈ (s.storedBy call).map Publication.id
      · rcases List.mem_map.mp hmem with ⟨p, hp, rfl⟩
        rcases Session.time_of_stored hp with ⟨now, htime⟩
        rcases Session.find?_of_stored hp htime with ⟨hnew, own, receipt, hfind⟩
        rw [hnew, hfind, (s.nodup_storedBy call).count, if_pos hmem]
        simp [tally, h.arrival]
      · have hother : ∀ p ∈ s.storedBy call, p.id ≠ id := fun p hp hid =>
          hmem (List.mem_map.mpr ⟨p, hp, hid⟩)
        have hfind := Session.find?_of_unstored htimer hother
        rw [List.count_eq_zero_of_not_mem hmem, Nat.zero_add, ← h.tally_settled, ← hfind,
          h.tally_settled]

/-- By induction over the run: the account balances at each call. -/
theorem after (h : Tells part test) (s : Session) (calls : List Call) (id : PublicationId) :
    ((s.stored calls).map Publication.id).count id + tally test (s.table.find? id) =
      ((s.reports calls).flatMap part).count id + tally test ((s.after calls).table.find? id) := by
  induction calls generalizing s with
  | nil => rfl
  | cons call rest ih =>
      have hcall := h.perform s call id
      have hrest := ih (s.perform call).session
      simp only [Session.stored, Session.reports, Session.after_cons, List.map_append,
        List.flatMap_append, List.count_append]
      omega

end Tells

/-! ## The three parts -/

namespace Entry

theorem stops_kept (e : Entry) (w : Window) (now : Timestamp) :
    e.stops (fun _ => true) w now = e.isForgotten w now := by
  unfold stops aged
  cases hforgotten : e.isForgotten w now with
  | true => rfl
  | false => rfl

/-- An entry that is forgotten leaves the summary with the table, whether the horizon is reached or
not. -/
theorem stops_active (e : Entry) (w : Window) (now : Timestamp) :
    e.stops active w now = e.unpublishes w now := by
  unfold stops aged
  cases hforgotten : e.isForgotten w now with
  | true => simp [unpublishes, hforgotten]
  | false =>
      cases hactive : e.active with
      | false => simp [unpublishes, hactive]
      | true => simp [unpublishes, hactive, hforgotten]

/-- An entry that is forgotten expires with it, since twice the lifetime is no shorter. -/
theorem stops_unexpired (e : Entry) (w : Window) (now : Timestamp) :
    e.stops (fun e => !e.expired) w now = e.expires w now := by
  unfold stops
  cases haged : e.aged w now with
  | none =>
      have hdue : e.arrived.after w.lifetime ≤ now :=
        Nat.le_trans (Timestamp.after_mono (Nat.le_refl _) w.lifetime_le_double)
          (aged_eq_none_iff.mp haged)
      simp [expires, hdue]
  | some e' =>
      rw [aged_eq_some haged]
      cases hexpired : e.expired with
      | true => simp [expires, hexpired]
      | false => simp [hexpired]

end Entry

namespace Tells

theorem forgotten : Tells TimerReport.forgotten fun _ => true where
  arrival _ _ _ _ := rfl
  settled _ := rfl
  never_again _ _ := rfl
  report s now := congrArg s.idsWhere (funext fun e => (e.stops_kept s.config.window now).symm)

theorem unpublished : Tells TimerReport.unpublished Entry.active where
  arrival _ _ _ _ := rfl
  settled _ := rfl
  never_again haged hactive := ((Entry.active_of_aged haged).mp hactive).1
  report s now := congrArg s.idsWhere (funext fun e => (e.stops_active s.config.window now).symm)

theorem expired : Tells TimerReport.expired fun e => !e.expired where
  arrival _ _ _ _ := rfl
  settled _ := rfl
  never_again {e} _ _ _ haged hlater := by
    cases hexpired : e.expired with
    | false => rfl
    | true =>
        rw [(Entry.expired_of_aged haged).mpr (Or.inl hexpired)] at hlater
        cases hlater
  report s now := congrArg s.idsWhere (funext fun e => (e.stops_unexpired s.config.window now).symm)

end Tells

namespace Session

variable {s : Session} {id : PublicationId}

theorem tally_kept (s : Session) (id : PublicationId) :
    tally (fun _ => true) (s.table.find? id) = (s.table.contains id).toNat := by
  unfold tally Table.contains
  cases s.table.find? id with
  | none => rfl
  | some e => rfl

theorem Consistent.tally_active (h : s.Consistent) (id : PublicationId) :
    tally Entry.active (s.table.find? id) = (s.summary.contains id).toNat := by
  have hoffered : (s.table.find? id).any Entry.active = s.summary.contains id := by
    rw [Bool.eq_iff_iff, Option.any_eq_true, Summary.contains_iff, h.offered]
  exact congrArg Bool.toNat hoffered

/-- The reports of the timers account for every publication exactly once. In any run, an id is stored
as often as it is reported as forgotten, plus once if it is in the table in the end; as often as it is
reported as unpublished, plus once if it is on offer; and as often as it is reported as expired, plus
once if its entry is not. Every report is in order of ids, and a table with the same entries in
another order reports the same. -/
theorem reports_balance (config : SessionConfig) (policy : Policy) (s : Session) (calls : List Call)
    (hopen : openWith config policy = .ok s) :
    let board := s.after calls
    (∀ id,
      let times := ((s.stored calls).map Publication.id).count id
      times = ((s.reports calls).flatMap TimerReport.forgotten).count id +
          (board.table.contains id).toNat ∧
        times = ((s.reports calls).flatMap TimerReport.unpublished).count id +
          (board.summary.contains id).toNat ∧
        times = ((s.reports calls).flatMap TimerReport.expired).count id +
          ((board.table.find? id).any fun e => !e.expired).toNat) ∧
      (∀ r ∈ s.reports calls, r.Ascending) ∧
      ∀ other : Session, other.config.window = board.config.window →
        (∀ id, other.table.find? id = board.table.find? id) →
        ∀ now, (other.advance now).answer = (board.advance now).answer := by
  intro board
  have hconsistent : board.Consistent := Consistent.of_openWith hopen calls
  have hempty : ∀ test id, tally test (s.table.find? id) = 0 := by
    rcases openWith_eq_ok hopen with ⟨-, rfl⟩
    intro test id
    rfl
  refine ⟨?_, ?_, ?_⟩
  · intro id times
    have hforgotten := Tells.forgotten.after s calls id
    have hunpublished := Tells.unpublished.after s calls id
    have hexpired := Tells.expired.after s calls id
    rw [hempty, Nat.add_zero] at hforgotten hunpublished hexpired
    rw [tally_kept] at hforgotten
    rw [hconsistent.tally_active] at hunpublished
    exact ⟨hforgotten, hunpublished, hexpired⟩
  · intro r hr
    exact ascending_reports hr
  · intro other hwindow hsame now
    exact report_congr hwindow hsame now

/-- With a skew longer than the lifetime, an answer forgets a publication while it is still on offer
and not yet expired, and the publication is stored once more: each part names it once. -/
theorem reports_balance_stored_twice :
    let config : SessionConfig := { window := { lifetime := .ofMillis 100, skew := .ofMillis 500 } }
    let s := fresh config (.lifecycle config.window)
    let p := Publication.stamped .root .zero []
    let call := Call.publish .root [] .zero none
    let calls := [call, .answerPeer .empty ⟨200000⟩, call]
    openDefault config = .ok s ∧ s.stored calls = [p, p] ∧
      ((s.reports calls).flatMap TimerReport.forgotten).count p.id = 1 ∧
      ((s.reports calls).flatMap TimerReport.unpublished).count p.id = 1 ∧
      ((s.reports calls).flatMap TimerReport.expired).count p.id = 1 := by
  intro config s p call calls
  let stale := s.after [call, .answerPeer .empty ⟨200000⟩]
  have hfirst : s.storedBy call = [p] := by
    rw [storedBy_publish]
    exact if_pos ⟨rfl, rfl⟩
  have hforgotten : stale.table.find? p.id = none := by
    rcases find?_of_stored (hfirst ▸ List.mem_singleton.mpr rfl) rfl with ⟨-, own, receipt, hfind⟩
    have hdue : Timestamp.zero.after config.window.lifetime.double ≤ ⟨200000⟩ := by decide
    have haged : (Entry.arrival p own .zero receipt).aged config.window ⟨200000⟩ = none :=
      Entry.aged_eq_none_iff.mpr hdue
    have hopened : (s.perform call).session.closed = false := open_perform rfl (by simp [call])
    have hanswer := find?_answerPeer hopened .empty ⟨200000⟩ p.id
    rw [hfind, Option.bind_some] at hanswer
    exact hanswer.trans (congrArg (Option.map _) haged)
  have hstale : stale.closed = false := open_after rfl (by simp [call])
  have hagain : stale.storedBy call = [p] := by
    rw [storedBy_publish, if_pos ⟨hstale, hforgotten⟩]
  have hstored : s.stored calls = [p, p] := by
    have hsplit : s.stored calls = s.storedBy call ++ ([] ++ (stale.storedBy call ++ [])) := rfl
    rw [hsplit, hfirst, hagain]
    rfl
  have hopen : openWith config (.lifecycle config.window) = .ok s := rfl
  rcases find?_of_stored (hagain ▸ List.mem_singleton.mpr rfl) rfl with ⟨-, own, receipt, hfind⟩
  have hboard : (s.after calls).table.find? p.id = some (.arrival p own .zero receipt) := hfind
  have hoffered : p.id ∈ (s.after calls).summary.ids :=
    ((Consistent.of_openWith hopen calls).offered p.id).mpr ⟨_, hboard, rfl⟩
  have htwice : ((s.stored calls).map Publication.id).count p.id = 2 := by
    rw [hstored]
    simp
  rcases (reports_balance config (.lifecycle config.window) s calls hopen).1 p.id with
    ⟨htable, hoffer, hmark⟩
  rw [htwice, Table.contains_iff.mpr ⟨_, hboard⟩] at htable
  rw [htwice, Summary.contains_iff.mpr hoffered] at hoffer
  rw [htwice, hboard] at hmark
  refine ⟨rfl, hstored, ?_, ?_, ?_⟩
  · exact (Nat.succ.inj htable).symm
  · exact (Nat.succ.inj hoffer).symm
  · exact (Nat.succ.inj hmark).symm

end Session

end Bulletin
