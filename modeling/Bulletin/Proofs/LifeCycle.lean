import Bulletin.Proofs.Invariant
import Bulletin.Proofs.Storing
import Mathlib.Data.List.MinMax
import Mathlib.Order.Lattice.Nat

/-!
# LifeCycle — an entry is told by the latest run of the timers

Timers set marks on entries and take entries out, call by call, and the times they run to may jump
and go back. Still the latest of these times alone says where a publication stands:

* `latest` — the latest of some times, compared by `Timestamp.level`, `⊥` if there is none;
* `Lived` — where a publication stands once the timers have run to a latest time;
* `Lived.bind_aged` — running them once more takes the maximum;
* `Session.Lives.after` — and so does a run of calls;
* `Session.life_cycle` — table, mark and summary in closed form.
-/

namespace Bulletin

namespace Timestamp

variable {a b : Timestamp}

/-- A time in microseconds, above `⊥`, which is before all times. -/
def level (t : Timestamp) : WithBot ℕ :=
  WithBot.some t.toNat

theorem level_le_level : a.level ≤ b.level ↔ a ≤ b :=
  WithBot.coe_le_coe

theorem level_lt_level : a.level < b.level ↔ ¬ b ≤ a :=
  WithBot.coe_lt_coe.trans Nat.not_le.symm

end Timestamp

/-- The latest of some times, `⊥` if there is none. -/
def latest (times : List Timestamp) : WithBot ℕ :=
  (times.map Timestamp.toNat).maximum

theorem latest_cons (t : Timestamp) (times : List Timestamp) :
    latest (t :: times) = max t.level (latest times) :=
  List.maximum_cons t.toNat (times.map Timestamp.toNat)

theorem latest_append (first second : List Timestamp) :
    latest (first ++ second) = max (latest first) (latest second) := by
  induction first with
  | nil => exact (max_eq_right bot_le).symm
  | cons t rest ih => rw [List.cons_append, latest_cons, ih, latest_cons, max_assoc]

/-! ## One entry -/

/-- Where a publication that arrived at `t` stands when the latest run of the timers was to `m`. -/
structure Entry.AgedTo (w : Window) (p : Publication) (t : Timestamp) (m : WithBot ℕ) (e : Entry) :
    Prop where
  publication : e.publication = p
  arrived : e.arrived = t
  kept : m < (t.after w.lifetime.double).level
  expired : e.expired = true ↔ (t.after w.lifetime).level ≤ m
  active : e.active = true ↔ m < (t.after w.horizon).level

/-- What is left of a publication then: an entry until the end of twice the lifetime. -/
def Lived (w : Window) (p : Publication) (t : Timestamp) (m : WithBot ℕ) : Option Entry → Prop
  | some e => e.AgedTo w p t m
  | none => (t.after w.lifetime.double).level ≤ m

variable {w : Window} {p : Publication} {t now : Timestamp} {m : WithBot ℕ} {e e' : Entry}

theorem Entry.AgedTo.arrival (own : Bool) (receipt : Option String) :
    (Entry.arrival p own t receipt).AgedTo w p t ⊥ where
  publication := rfl
  arrived := rfl
  kept := WithBot.bot_lt_coe _
  expired := iff_of_false Bool.false_ne_true (not_le_of_gt (WithBot.bot_lt_coe _))
  active := iff_of_true rfl (WithBot.bot_lt_coe _)

/-- A mark is set by the first run of the timers that is late enough, so by the latest one. -/
theorem Entry.AgedTo.aged (h : e.AgedTo w p t m) (haged : e.aged w now = some e') :
    e'.AgedTo w p t (max m now.level) := by
  -- The three deadlines, each against `now`; against `m` they are in `h`.
  have hkept : ¬ e.arrived.after w.lifetime.double ≤ now := by
    rw [← Entry.aged_eq_none_iff, haged]
    simp
  have hexpired := Entry.expired_of_aged haged
  have hactive := Entry.active_of_aged haged
  rw [h.arrived] at hkept hexpired hactive
  rw [h.expired] at hexpired
  rw [h.active] at hactive
  refine ⟨?_, ?_, ?_, ?_, ?_⟩
  · rw [Entry.aged_eq_some haged]
    exact h.publication
  · rw [Entry.aged_eq_some haged]
    exact h.arrived
  · exact max_lt h.kept (Timestamp.level_lt_level.mpr hkept)
  · rw [hexpired, le_max_iff, Timestamp.level_le_level]
  · rw [hactive, max_lt_iff, Timestamp.level_lt_level]

theorem Lived.bind_aged {o : Option Entry} (h : Lived w p t m o) (now : Timestamp) :
    Lived w p t (max m now.level) (o.bind (·.aged w now)) := by
  cases o with
  | none => exact le_max_of_le_left h
  | some e =>
      rw [Option.bind_some]
      cases haged : e.aged w now with
      | some e' => exact Entry.AgedTo.aged h haged
      | none =>
          have hdue := Entry.aged_eq_none_iff.mp haged
          rw [Entry.AgedTo.arrived h] at hdue
          exact le_max_of_le_right (Timestamp.level_le_level.mpr hdue)

theorem Entry.bind_aged_settled (w : Window) (now : Timestamp) (o : Option Entry) :
    (o.map settled).bind (·.aged w now) = (o.bind (·.aged w now)).map settled := by
  cases o with
  | none => rfl
  | some e => exact e.aged_settled w now

/-! ## Runs -/

namespace Session

variable {s : Session} {call : Call}

/-- Where `p` stands in a session, receipts aside. -/
def Lives (s : Session) (p : Publication) (t : Timestamp) (m : WithBot ℕ) : Prop :=
  Lived s.config.window p t m ((s.table.find? p.id).map Entry.settled)

theorem lives_of_stored (hstored : p ∈ s.storedBy call) (htime : call.time? = some t) :
    (s.perform call).session.Lives p t ⊥ := by
  rcases find?_of_stored hstored htime with ⟨-, own, receipt, hfind⟩
  unfold Lives
  rw [hfind]
  exact Entry.AgedTo.arrival own none

namespace Lives

theorem perform (h : s.Lives p t m) (hunstored : ∀ q ∈ s.storedBy call, q.id ≠ p.id) :
    (s.perform call).session.Lives p t (max m (latest (s.timer? call).toList)) := by
  unfold Lives
  rw [(s.settings_perform call).1]
  cases htimer : s.timer? call with
  | none =>
      rw [find?_of_unstored htimer hunstored]
      exact (max_eq_left bot_le : max m ⊥ = m).symm ▸ h
  | some now =>
      rw [(find?_of_timer htimer p.id).2, ← Entry.bind_aged_settled]
      exact h.bind_aged now

/-- By induction over the run: each call takes the maximum with its own run of the timers. -/
theorem after (h : s.Lives p t m) {calls : List Call}
    (hunstored : ∀ q ∈ s.stored calls, q.id ≠ p.id) :
    (s.after calls).Lives p t (max m (latest (s.timers calls))) := by
  induction calls generalizing s m with
  | nil => exact (max_eq_left bot_le : max m ⊥ = m).symm ▸ h
  | cons call rest ih =>
      have hcall := h.perform fun q hq => hunstored q (List.mem_append_left _ hq)
      have hrest := ih hcall fun q hq => hunstored q (List.mem_append_right _ hq)
      rw [max_assoc, ← latest_append] at hrest
      exact hrest

theorem contains_iff (h : s.Lives p t m) :
    s.table.contains p.id = true ↔ m < (t.after s.config.window.lifetime.double).level := by
  unfold Lives at h
  rw [Table.contains_iff]
  cases hfind : s.table.find? p.id with
  | none =>
      rw [hfind] at h
      exact iff_of_false (by simp) (not_lt_of_ge h)
  | some e =>
      rw [hfind] at h
      exact iff_of_true ⟨e, rfl⟩ (Entry.AgedTo.kept h)

theorem entry (h : s.Lives p t m) {e : Entry} (hfind : s.table.find? p.id = some e) :
    e.AgedTo s.config.window p t m := by
  unfold Lives at h
  rw [hfind] at h
  exact ⟨h.publication, h.arrived, h.kept, h.expired, h.active⟩

theorem offered_iff (h : s.Lives p t m) (hc : s.Consistent) :
    p.id ∈ s.summary.ids ↔
      m < (t.after s.config.window.horizon).level ∧
        m < (t.after s.config.window.lifetime.double).level := by
  rw [hc.offered, ← h.contains_iff, Table.contains_iff]
  constructor
  · rintro ⟨e, hfind, hactive⟩
    exact ⟨(h.entry hfind).active.mp hactive, e, hfind⟩
  · rintro ⟨hearly, e, hfind⟩
    exact ⟨e, hfind, (h.entry hfind).active.mpr hearly⟩

end Lives

/-- The life cycle of a publication in closed form. Let `p` be stored by a call at `t`, in any run
of any session, and let `m` be the latest time to which the timers have run since. Until `p` is stored
again, it is in the table while `m` is before the end of twice the lifetime, it is marked as expired
once `m` has reached the end of the lifetime, and it is on offer while `m` is before the horizon and
before the end of twice the lifetime. -/
theorem life_cycle (config : SessionConfig) (policy : Policy) (s : Session)
    (before later : List Call) (call : Call) (p : Publication) (t : Timestamp)
    (hopen : openWith config policy = .ok s) (htime : call.time? = some t)
    (hstored : p ∈ (s.after before).storedBy call)
    (honce : ∀ q ∈ (s.after (before ++ [call])).stored later, q.id ≠ p.id) :
    let w := config.window
    let board := s.after (before ++ call :: later)
    let m := latest ((s.after (before ++ [call])).timers later)
    (board.table.contains p.id = true ↔ m < (t.after w.lifetime.double).level) ∧
      (∀ e, board.table.find? p.id = some e → e.publication = p ∧ e.arrived = t ∧
        (e.expired = true ↔ (t.after w.lifetime).level ≤ m)) ∧
      (p.id ∈ board.summary.ids ↔
        m < (t.after w.horizon).level ∧ m < (t.after w.lifetime.double).level) := by
  intro w board m
  have hconsistent : board.Consistent := Consistent.of_openWith hopen _
  have hwindow : board.config.window = w := by
    rcases openWith_eq_ok hopen with ⟨-, rfl⟩
    rw [(settings_after _ _).1]
    rfl
  have hsplit : board = (s.after (before ++ [call])).after later := by
    rw [← after_append, List.append_assoc]
    rfl
  have hlives : board.Lives p t m := by
    -- Right after it was stored no timers have run.
    have hstart : (s.after (before ++ [call])).Lives p t ⊥ := by
      rw [after_append]
      exact lives_of_stored hstored htime
    have hafter := hstart.after honce
    rw [max_eq_right bot_le] at hafter
    exact hsplit ▸ hafter
  refine ⟨?_, ?_, ?_⟩
  · rw [hlives.contains_iff, hwindow]
  · intro e hfind
    have hentry := hlives.entry hfind
    rw [hwindow] at hentry
    exact ⟨hentry.publication, hentry.arrived, hentry.expired⟩
  · rw [hlives.offered_iff hconsistent, hwindow]

/-- A clock that jumps past the lifetime and then goes back, with a skew longer than the lifetime: the
publication stays expired, and it is still on offer. -/
theorem life_cycle_clock_back :
    let config : SessionConfig := { window := { lifetime := .ofMillis 100, skew := .ofMillis 500 } }
    let s := fresh config (.lifecycle config.window)
    let p := Publication.stamped .root .zero []
    let call := Call.publish .root [] .zero none
    let board := s.after [call, .advance ⟨150000⟩, .advance ⟨3⟩]
    openDefault config = .ok s ∧ p ∈ s.storedBy call ∧ board.table.contains p.id = true ∧
      (∀ e, board.table.find? p.id = some e → e.expired = true) ∧ p.id ∈ board.summary.ids := by
  intro config s p call board
  have hstored : p ∈ s.storedBy call := List.mem_singleton.mpr rfl
  have hlatest : latest ((s.after ([] ++ [call])).timers [.advance ⟨150000⟩, .advance ⟨3⟩]) =
      Timestamp.level ⟨150000⟩ := rfl
  rcases life_cycle config (.lifecycle config.window) s [] [.advance ⟨150000⟩, .advance ⟨3⟩] call p
    .zero rfl rfl hstored (by simp [stored, storedBy, acceptedBy]) with ⟨htable, hmark, hoffer⟩
  rw [hlatest] at htable hoffer
  simp only [hlatest] at hmark
  refine ⟨rfl, hstored, htable.mpr ?_, fun e hfind => (hmark e hfind).2.2.mpr ?_, hoffer.mpr ⟨?_, ?_⟩⟩
  · exact Timestamp.level_lt_level.mpr (by decide)
  · exact Timestamp.level_le_level.mpr (by decide)
  · exact Timestamp.level_lt_level.mpr (by decide)
  · exact Timestamp.level_lt_level.mpr (by decide)

end Session

end Bulletin
