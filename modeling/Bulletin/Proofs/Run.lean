import Bulletin.Session.Answer
import Bulletin.Session.Publish
import Bulletin.Session.Receive
import Mathlib.Algebra.Group.Nat.Defs

/-!
# Run — sequences of calls

What an application can do with a session is a list of calls, each at a time of its own choosing.
This file defines:

* `Call` — one call with its arguments, and `Session.perform`, which makes it;
* `Call.Chronological` — the times of the calls do not go back;
* `Session.after` and `Session.history` — the session that a list of calls leaves behind, and the
  events of all of them in order;
* `Session.after_induction` — what every call preserves, every run preserves.
-/

namespace Bulletin

/-! ## Calls -/

/-- A call that an application may make of a session; `cancel` is the end of a subscription. -/
inductive Call where
  | publish (name : Name) (payload : Bytes) (now : Timestamp) (receipt : Option String)
  | subscribe (topic : Name)
  | subscribeUri (topic : String)
  | receive (publications : List Publication) (now : Timestamp)
  | answerPeer (peer : Summary) (now : Timestamp)
  | advance (now : Timestamp)
  | close
  | cancel (token : Nat)
  deriving DecidableEq, Repr

namespace Call

def time? : Call → Option Timestamp
  | publish _ _ now _ => some now
  | receive _ now => some now
  | answerPeer _ now => some now
  | advance now => some now
  | _ => none

def receipt? : Call → Option String
  | publish _ _ _ receipt => receipt
  | _ => none

/-- The times of the calls do not go back, from `clock` on. -/
def Chronological (clock : Timestamp) (calls : List Call) : Prop :=
  (clock :: calls.filterMap time?).Pairwise (· ≤ ·)

namespace Chronological

variable {clock now : Timestamp} {call : Call} {rest : List Call}

theorem cons (h : Chronological clock (call :: rest)) :
    clock ≤ call.time?.getD clock ∧ Chronological (call.time?.getD clock) rest := by
  unfold Chronological at h ⊢
  cases htime : call.time? with
  | none =>
      rw [List.filterMap_cons_none htime] at h
      exact ⟨Nat.le_refl _, h⟩
  | some now =>
      rw [List.filterMap_cons_some htime] at h
      rcases List.pairwise_cons.mp h with ⟨hstart, hrest⟩
      exact ⟨hstart now List.mem_cons_self, hrest⟩

theorem of_time (htime : call.time? = some now) (h : Chronological now rest) :
    Chronological now (call :: rest) := by
  unfold Chronological
  rw [List.filterMap_cons_some htime]
  refine List.pairwise_cons.mpr ⟨?_, h⟩
  intro t hmem
  rcases List.mem_cons.mp hmem with rfl | hlater
  · exact Nat.le_refl _
  · exact (List.pairwise_cons.mp h).1 t hlater

/-- No time is before the first instant. -/
theorem of_pairwise {calls : List Call} (h : (calls.filterMap time?).Pairwise (· ≤ ·)) :
    Chronological .zero calls :=
  List.pairwise_cons.mpr ⟨fun _ _ => Nat.zero_le _, h⟩

end Chronological

end Call

def Step.discard {α : Type} (step : Step α) : Step Unit :=
  ⟨(), step.session, step.events⟩

namespace Session

def perform (s : Session) : Call → Step Unit
  | .publish name payload now receipt => (s.publish name payload now receipt).discard
  | .subscribe topic => (s.subscribe topic).discard
  | .subscribeUri topic => (s.subscribeUri topic).discard
  | .receive publications now => (s.receive publications now).discard
  | .answerPeer peer now => (s.answerPeer peer now).discard
  | .advance now => (s.advance now).discard
  | .close => s.close
  | .cancel token => ⟨(), s.cancel token, []⟩

/-! ## Runs -/

def after (s : Session) : List Call → Session
  | [] => s
  | call :: rest => (s.perform call).session.after rest

def history (s : Session) : List Call → List Event
  | [] => []
  | call :: rest => (s.perform call).events ++ (s.perform call).session.history rest

@[simp] theorem after_nil (s : Session) : s.after [] = s := rfl

@[simp] theorem after_cons (s : Session) (call : Call) (rest : List Call) :
    s.after (call :: rest) = (s.perform call).session.after rest := rfl

@[simp] theorem history_nil (s : Session) : s.history [] = [] := rfl

@[simp] theorem history_cons (s : Session) (call : Call) (rest : List Call) :
    s.history (call :: rest) =
      (s.perform call).events ++ (s.perform call).session.history rest := rfl

theorem after_append (s : Session) (first second : List Call) :
    s.after (first ++ second) = (s.after first).after second := by
  induction first generalizing s with
  | nil => rfl
  | cons call rest ih => exact ih (s.perform call).session

theorem history_append (s : Session) (first second : List Call) :
    s.history (first ++ second) = s.history first ++ (s.after first).history second := by
  induction first generalizing s with
  | nil => rfl
  | cons call rest ih =>
      simpa using ih (s.perform call).session

/-- What every call preserves holds after every run. -/
theorem after_induction {P : Session → Prop}
    (hstep : ∀ s call, P s → P (s.perform call).session) {s : Session} (h : P s)
    (calls : List Call) : P (s.after calls) := by
  induction calls generalizing s with
  | nil => exact h
  | cons call rest ih => exact ih (hstep s call h)

end Session

end Bulletin
