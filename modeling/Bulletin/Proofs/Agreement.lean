import Bulletin.Proofs.LifeCycle
import Bulletin.Proofs.Receipt.Fate

/-!
# Agreement — when a publication is too old

Two parts of a session say how long an own publication is current. The timers keep it in the summary
until the horizon, which is one duration: lifetime and skew are added, the sum is cut to whole
microseconds, and the deadline is clamped to the last instant. The freshness window cuts lifetime and
skew to whole microseconds one by one and adds what is left. This file compares the two:

* `Session.timers_eq` — calls that run the timers do nothing else to publications;
* `latest_eq_level` — times that do not go back have their last one as the latest;
* `Window.lt_horizon_iff` — before the last instant the horizon is the sum of the whole microseconds,
  and one more if the rest of both makes up a microsecond;
* `Session.offered_iff_lt` — the summary in these terms;
* `Session.timers_agree_with_window` — the two agree, but for that one microsecond.
-/

namespace Bulletin

/-! ## Runs of the timers -/

/-- The call runs the timers of an open session, by itself or before an answer. -/
def Call.runsTimers : Call → Bool
  | .advance _ => true
  | .answerPeer _ _ => true
  | _ => false

namespace Session

variable {s : Session} {call : Call} {calls : List Call}

theorem timer?_eq_time? (hopen : s.closed = false) (htimers : call.runsTimers = true) :
    s.timer? call = call.time? ∧ s.storedBy call = [] ∧ call ≠ .close := by
  cases call with
  | advance now => exact ⟨rfl, rfl, by simp⟩
  | answerPeer peer now => exact ⟨by simp [timer?, hopen, Call.time?], rfl, by simp⟩
  | publish | subscribe | subscribeUri | receive | close | cancel => cases htimers

/-- By induction over the run: the session stays open, so every call runs the timers. -/
theorem timers_eq (hopen : s.closed = false) (htimers : ∀ call ∈ calls, call.runsTimers = true) :
    s.timers calls = calls.filterMap Call.time? ∧ s.stored calls = [] := by
  induction calls generalizing s with
  | nil => exact ⟨rfl, rfl⟩
  | cons call rest ih =>
      obtain ⟨hcall, hrest⟩ := List.forall_mem_cons.mp htimers
      obtain ⟨htime, hstored, hkeep⟩ := timer?_eq_time? hopen hcall
      obtain ⟨htimes, hnothing⟩ := ih (open_perform hopen hkeep) hrest
      constructor
      · rw [timers, htimes, htime]
        cases htime? : call.time? with
        | none => rw [List.filterMap_cons_none htime?, Option.toList_none, List.nil_append]
        | some now => rw [List.filterMap_cons_some htime?, Option.toList_some, List.singleton_append]
      · rw [stored, hstored, hnothing, List.nil_append]

end Session

theorem latest_eq_level {times : List Timestamp} {now : Timestamp}
    (hordered : times.Pairwise (· ≤ ·)) (hlast : times.getLast? = some now) :
    latest times = now.level := by
  induction times with
  | nil => cases hlast
  | cons t rest ih =>
      obtain ⟨hfirst, hrest⟩ := List.pairwise_cons.mp hordered
      rw [latest_cons]
      cases rest with
      | nil =>
          cases hlast
          exact max_eq_left bot_le
      | cons t' rest =>
          rw [List.getLast?_cons_cons] at hlast
          rw [ih hrest hlast]
          exact max_eq_right (Timestamp.level_le_level.mpr (hfirst now (List.mem_of_getLast? hlast)))

/-! ## The horizon in microseconds -/

namespace Window

variable {w : Window} {t now : Timestamp}

/-- What lifetime and skew have beyond whole microseconds makes up a microsecond. -/
def Carries (w : Window) : Prop :=
  1000 ≤ w.lifetime.nanos % 1000 + w.skew.nanos % 1000

theorem horizon_le_double (h : w.skew.nanos ≤ w.lifetime.nanos) :
    w.horizon.micros ≤ w.lifetime.double.micros := by
  apply Duration.micros_le
  have hhorizon : w.horizon.nanos = min (w.lifetime.nanos + w.skew.nanos) (2 ^ 64 * 10 ^ 9 - 1) := rfl
  rw [hhorizon, Duration.nanos_double]
  omega

/-- A clamped sum or deadline is later than every time before the last instant, and so is the sum that
was not clamped. -/
theorem lt_horizon_iff (hnow : now.toNat < 2 ^ 64 - 1) :
    now < t.after w.horizon ↔
      now.toNat < t.toNat + w.lifetime.micros + w.skew.micros ∨
        now.toNat = t.toNat + w.lifetime.micros + w.skew.micros ∧ w.Carries := by
  have hhorizon : w.horizon.nanos = min (w.lifetime.nanos + w.skew.nanos) (2 ^ 64 * 10 ^ 9 - 1) := rfl
  rw [Timestamp.lt_iff, Timestamp.toNat_after]
  unfold Carries Duration.micros
  omega

/-- From its stamp on, a publication is too old when the whole microseconds of lifetime and skew are
over. -/
theorem fresh_stamped_iff (hskew : 1 ≤ w.skew.micros) (hpast : t ≤ now) (name : Name)
    (payload : Bytes) :
    w.fresh (.stamped name t payload) now = true ↔
      now.toNat < t.toNat + w.lifetime.micros + w.skew.micros := by
  have hpast : t.toNat ≤ now.toNat := hpast
  rw [fresh_iff, Publication.timestamp_of_timestamp? (Publication.timestamp?_stamped name t payload)]
  omega

end Window

/-! ## The summary -/

namespace Session

variable {s : Session} {p : Publication} {t now : Timestamp}

theorem lives_of_published {name : Name} {payload : Bytes} {receipt : Option String}
    {id : PublicationId} {later : List Call}
    (hpublished : (s.publish name payload t receipt).answer = .ok (.published id))
    (htimers : ∀ call ∈ later, call.runsTimers = true)
    (hordered : (later.filterMap Call.time?).Pairwise (· ≤ ·))
    (hlast : (later.filterMap Call.time?).getLast? = some now) :
    (s.after (.publish name payload t receipt :: later)).Lives (.stamped name t payload) t
      now.level := by
  obtain ⟨-, hopen, hnew⟩ := publish_eq_published hpublished
  have hmem : .stamped name t payload ∈ s.storedBy (.publish name payload t receipt) := by
    rw [storedBy_publish, if_pos ⟨hopen, hnew⟩]
    exact List.mem_singleton.mpr rfl
  have hstill : (s.perform (.publish name payload t receipt)).session.closed = false :=
    open_perform hopen (by simp)
  obtain ⟨htimes, hnothing⟩ := timers_eq hstill htimers
  have honce : ∀ q ∈ (s.perform (.publish name payload t receipt)).session.stored later,
      q.id ≠ (Publication.stamped name t payload).id := by
    rw [hnothing]
    simp
  -- No timers had run when it was stored, and those since then ran to `now` at last.
  have hafter := (lives_of_stored hmem rfl).after honce
  rw [htimes, latest_eq_level hordered hlast, max_eq_right bot_le] at hafter
  exact hafter

/-- With a skew that is not longer than the lifetime a publication leaves the summary before it is
forgotten, so the horizon alone decides. -/
theorem offered_iff_lt (hconsistent : s.Consistent) (hlives : s.Lives p t now.level)
    (hskew : s.config.window.skew.nanos ≤ s.config.window.lifetime.nanos) :
    s.summary.contains p.id = true ↔ now < t.after s.config.window.horizon := by
  have hfirst : t.after s.config.window.horizon ≤ t.after s.config.window.lifetime.double :=
    Timestamp.after_mono (Nat.le_refl _) (Window.horizon_le_double hskew)
  rw [Summary.contains_iff, hlives.offered_iff hconsistent, Timestamp.level_lt_level,
    Timestamp.level_lt_level]
  constructor
  · rintro ⟨hearly, -⟩
    exact Nat.lt_of_not_le hearly
  · intro hearly
    exact ⟨Nat.not_le_of_lt hearly, Nat.not_le_of_lt (Nat.lt_of_lt_of_le hearly hfirst)⟩

/-- The timers and the freshness window agree on when an own publication is too old. Let `p` be
published at `t` in any run of any session, and let the timers run after that, by themselves or before
answers, at times that do not go back, at last to `now`. If lifetime and skew are whole microseconds,
then `p` is in the summary exactly when it is valid at `now`. In general the two differ exactly when
`p` is as old as the whole microseconds of lifetime and skew together and the rest of both makes up a
microsecond; then `p` is in the summary still, and no longer valid. -/
theorem timers_agree_with_window (config : SessionConfig) (policy : Policy) (s : Session)
    (before later : List Call) (name : Name) (payload : Bytes) (t now : Timestamp)
    (receipt : Option String) (id : PublicationId) (hopen : openWith config policy = .ok s)
    (hskew : 1 ≤ config.window.skew.micros)
    (hshort : config.window.skew.nanos ≤ config.window.lifetime.nanos)
    (hpublished : ((s.after before).publish name payload t receipt).answer = .ok (.published id))
    (htimers : ∀ call ∈ later, call.runsTimers = true)
    (hordered : (later.filterMap Call.time?).Pairwise (· ≤ ·))
    (hlast : (later.filterMap Call.time?).getLast? = some now) (hpast : t ≤ now)
    (hnow : now.toNat < 2 ^ 64 - 1) :
    let w := config.window
    let offered := (s.after (before ++ .publish name payload t receipt :: later)).summary.contains id
    let valid := (Policy.lifecycle w).valid (.stamped name t payload) now
    (w.lifetime.nanos % 1000 = 0 → w.skew.nanos % 1000 = 0 → offered = valid) ∧
      (offered ≠ valid ↔
        now.toNat - t.toNat = w.lifetime.micros + w.skew.micros ∧
          1000 ≤ w.lifetime.nanos % 1000 + w.skew.nanos % 1000) ∧
      (offered ≠ valid → offered = true ∧ valid = false) := by
  intro w offered valid
  let call := Call.publish name payload t receipt
  let board := s.after (before ++ call :: later)
  obtain ⟨rfl, -, -⟩ := publish_eq_published hpublished
  -- The timers saw `now` as their latest time, whatever happened before the publication.
  have hlives : board.Lives (.stamped name t payload) t now.level := by
    have hafter := lives_of_published hpublished htimers hordered hlast
    rwa [← after_append] at hafter
  have hwindow : board.config.window = w := by
    obtain ⟨-, rfl⟩ := openWith_eq_ok hopen
    rw [(settings_after _ _).1]
    rfl
  have hoffered : offered = true ↔ now.toNat < t.toNat + w.lifetime.micros + w.skew.micros ∨
      now.toNat = t.toNat + w.lifetime.micros + w.skew.micros ∧ w.Carries := by
    rw [← Window.lt_horizon_iff hnow, ← hwindow]
    exact offered_iff_lt (Consistent.of_openWith hopen _) hlives (hwindow ▸ hshort)
  have hvalid : valid = true ↔ now.toNat < t.toNat + w.lifetime.micros + w.skew.micros :=
    Window.fresh_stamped_iff hskew hpast name payload
  -- From here on it is arithmetic: both sides are conditions on the age in whole microseconds.
  have hpast : t.toNat ≤ now.toNat := hpast
  unfold Window.Carries at hoffered
  refine ⟨?_, ?_, ?_⟩
  · intro hlifetime hskew
    rw [Bool.eq_iff_iff, hoffered, hvalid]
    omega
  · rw [Ne, Bool.eq_iff_iff, hoffered, hvalid]
    omega
  · rw [Ne, Bool.eq_iff_iff, ← Bool.not_eq_true valid, hoffered, hvalid]
    omega

/-- A lifetime and a skew that have a microsecond more together than each by itself: the publication is
in the summary for that microsecond, and no longer valid. -/
theorem timers_agree_with_window_carry :
    let config : SessionConfig := { window := ⟨.ofNanos 2600, .ofNanos 1500⟩ }
    let s := fresh config (.lifecycle config.window)
    let p := Publication.stamped .root ⟨5⟩ []
    let board := s.after [.publish .root [] ⟨5⟩ none, .answerPeer .empty ⟨7⟩, .advance ⟨8⟩]
    openDefault config = .ok s ∧ board.summary.contains p.id = true ∧ s.policy.valid p ⟨8⟩ = false := by
  intro config s p board
  obtain ⟨-, hdiffer, hstill⟩ := timers_agree_with_window config (.lifecycle config.window) s []
    [.answerPeer .empty ⟨7⟩, .advance ⟨8⟩] .root [] ⟨5⟩ ⟨8⟩ none p.id rfl (by decide) (by decide) rfl
    (by decide) (by decide) rfl (by decide) (by decide)
  exact ⟨rfl, hstill (hdiffer.mpr (by decide))⟩

end Session

end Bulletin
