import Bulletin.Proofs.Delivery
import Mathlib.Data.List.Nodup

/-!
# Storing — what a run stores, and when its timers run

The life of an entry has two causes: a call that stores a publication, and the timers, which run by
themselves or before an answer. This file tells both for one call and for a run:

* `Session.storedBy`, `Session.stored` — the publications that are published or accepted;
* `Session.timer?`, `Session.timers` — the times to which the timers run;
* `Session.find?_of_timer` — timers age every entry, and store nothing;
* `Session.find?_of_stored` — what is stored was unknown, and is an arrival afterwards;
* `Session.find?_of_unstored` — no other call touches more than a receipt.

Receipts play no part in it, so entries are compared once they are settled.
-/

namespace Bulletin

namespace Session

/-! ## Runs -/

def storedBy (s : Session) : Call → List Publication
  | .publish name payload now receipt =>
      match (s.publish name payload now receipt).answer with
      | .ok (.published _) => [.stamped name now payload]
      | _ => []
  | call => s.acceptedBy call

def stored (s : Session) : List Call → List Publication
  | [] => []
  | call :: rest => s.storedBy call ++ (s.perform call).session.stored rest

/-- The time to which a call runs the timers, if it does; a closed session answers without them. -/
def timer? (s : Session) : Call → Option Timestamp
  | .advance now => some now
  | .answerPeer _ now => if s.closed then none else some now
  | _ => none

def timers (s : Session) : List Call → List Timestamp
  | [] => []
  | call :: rest => (s.timer? call).toList ++ (s.perform call).session.timers rest

variable {s : Session} {p : Publication} {now : Timestamp} {call : Call} {id : PublicationId}

/-! ## What a received list stores -/

theorem receiveOne_of_ignored (hignored : (s.receiveOne p now).answer.stores = false) :
    (s.receiveOne p now).session = s := by
  cases hknown : s.table.contains p.id with
  | true => exact receiveOne_of_known hknown
  | false =>
      cases hvalid : s.policy.valid p now with
      | false => exact receiveOne_of_refused hvalid
      | true =>
          have hstores := stores_receiveOne.mpr ⟨Table.contains_eq_false_iff.mp hknown, hvalid⟩
          rw [hignored] at hstores
          cases hstores

theorem find?_of_stores (hstores : (s.receiveOne p now).answer.stores = true) (id : PublicationId) :
    (s.receiveOne p now).session.table.find? id =
      if id = p.id then some (.arrival p false now none) else s.table.find? id := by
  rcases stores_receiveOne.mp hstores with ⟨hnew, hvalid⟩
  rw [receiveOne_of_accepted (Table.contains_eq_false_iff.mpr hnew) hvalid]
  exact Table.find?_insert s.table p.id id _

theorem find?_eq_some_of_nodup {publications : List Publication} (hmem : p ∈ publications)
    (hnodup : (publications.map Publication.id).Nodup) :
    publications.find? (·.id = p.id) = some p := by
  cases hfind : publications.find? (·.id = p.id) with
  | none => simpa using List.find?_eq_none.mp hfind p hmem
  | some q =>
      have hsame : q.id = p.id := by simpa using List.find?_some hfind
      have hq : q ∈ publications := List.mem_of_find?_eq_some hfind
      rw [List.inj_on_of_nodup_map hnodup hq hmem hsame]

theorem find?_taken (s : Session) (publications : List Publication) (now : Timestamp)
    (id : PublicationId) :
    (s.receiveEach publications now).session.table.find? id =
      (s.table.find? id).or
        (((s.taken publications now).find? (·.id = id)).map fun p => .arrival p false now none) := by
  induction publications generalizing s with
  | nil => simp [receiveEach, taken]
  | cons p rest ih =>
      have hrest : (s.receiveEach (p :: rest) now).session.table.find? id = _ :=
        ih (s.receiveOne p now).session
      rw [hrest, taken_cons]
      cases hstores : (s.receiveOne p now).answer.stores with
      | false => simp [receiveOne_of_ignored hstores]
      | true =>
          have hnew := (stores_receiveOne.mp hstores).1
          rw [find?_of_stores hstores]
          by_cases hid : id = p.id
          · subst hid
            simp [hnew]
          · simp [hid, Ne.symm hid]

theorem new_of_mem_taken {publications : List Publication} (hmem : p ∈ s.taken publications now) :
    s.table.find? p.id = none := by
  induction publications generalizing s with
  | nil => cases hmem
  | cons first rest ih =>
      rw [taken_cons] at hmem
      rcases List.mem_append.mp hmem with hfirst | hrest
      · split at hfirst
        · rename_i hstores
          rw [List.mem_singleton.mp hfirst]
          exact (stores_receiveOne.mp hstores).1
        · cases hfirst
      · have hnone := ih hrest
        rw [find?_receiveOne] at hnone
        exact (Option.or_eq_none_iff.mp hnone).1

theorem nodup_taken (s : Session) (publications : List Publication) (now : Timestamp) :
    ((s.taken publications now).map Publication.id).Nodup := by
  induction publications generalizing s with
  | nil => exact List.nodup_nil
  | cons p rest ih =>
      rw [taken_cons]
      split
      · rename_i hstores
        refine List.nodup_cons.mpr ⟨?_, ih _⟩
        intro hmem
        rcases List.mem_map.mp hmem with ⟨q, hq, hsame⟩
        have hnone := new_of_mem_taken hq
        rw [find?_of_stores hstores, hsame, if_pos rfl] at hnone
        cases hnone
      · exact ih _

/-! ## What a call stores -/

theorem storedBy_publish (s : Session) (name : Name) (payload : Bytes) (now : Timestamp)
    (receipt : Option String) :
    s.storedBy (.publish name payload now receipt) =
      if s.closed = false ∧ s.table.find? (Publication.stamped name now payload).id = none then
        [.stamped name now payload]
      else [] := by
  cases hclosed : s.closed with
  | true => simp [storedBy, publish, hclosed]
  | false =>
      cases hknown : s.table.contains (Publication.stamped name now payload).id with
      | true =>
          rcases Table.contains_iff.mp hknown with ⟨e, hfind⟩
          simp [storedBy, publish, hclosed, hknown, hfind]
      | false =>
          have hnew := Table.contains_eq_false_iff.mp hknown
          simp [storedBy, publish, hclosed, hknown, hnew]

/-- Only a call that is told the time stores. -/
theorem time_of_stored (hstored : p ∈ s.storedBy call) : ∃ now, call.time? = some now := by
  cases call with
  | publish name payload now receipt => exact ⟨now, rfl⟩
  | receive publications now => exact ⟨now, rfl⟩
  | subscribe | subscribeUri | answerPeer | advance | close | cancel => cases hstored

theorem nodup_storedBy (s : Session) (call : Call) :
    ((s.storedBy call).map Publication.id).Nodup := by
  cases call with
  | publish name payload now receipt =>
      rw [storedBy_publish]
      split
      · simp
      · exact List.nodup_nil
  | receive publications now =>
      simp only [storedBy, acceptedBy]
      split
      · exact List.nodup_nil
      · exact s.nodup_taken publications now
  | subscribe | subscribeUri | answerPeer | advance | close | cancel => exact List.nodup_nil

/-- What a call stores was unknown, and is an arrival afterwards. -/
theorem find?_of_stored (hstored : p ∈ s.storedBy call) (htime : call.time? = some now) :
    s.table.find? p.id = none ∧
      ∃ own receipt, (s.perform call).session.table.find? p.id =
        some (.arrival p own now receipt) := by
  cases call with
  | publish name payload t receipt =>
      cases htime
      rw [storedBy_publish] at hstored
      split at hstored
      · rename_i hcond
        rw [List.mem_singleton.mp hstored]
        refine ⟨hcond.2, true, receipt, ?_⟩
        simp [find?_perform, entryAfter, hcond]
      · cases hstored
  | receive publications t =>
      cases htime
      simp only [storedBy, acceptedBy] at hstored
      split at hstored
      · cases hstored
      · rename_i hopen
        have hnew := new_of_mem_taken hstored
        refine ⟨hnew, false, none, ?_⟩
        -- No other accepted publication has this id.
        have hfirst := find?_eq_some_of_nodup hstored (s.nodup_taken publications now)
        have hsession : (s.perform (.receive publications now)).session =
            (s.receiveEach publications now).session :=
          session_receive (by simpa using hopen) publications now
        rw [hsession, find?_taken, hnew, hfirst]
        rfl
  | subscribe | subscribeUri | answerPeer | advance | close | cancel => cases hstored

/-- Timers age every entry, and store nothing. -/
theorem find?_of_timer (htimer : s.timer? call = some now) (id : PublicationId) :
    s.storedBy call = [] ∧
      ((s.perform call).session.table.find? id).map Entry.settled =
        ((s.table.find? id).bind (·.aged s.config.window now)).map Entry.settled := by
  cases call with
  | advance t =>
      cases htimer
      exact ⟨rfl, congrArg (Option.map Entry.settled) (s.find?_advance now id)⟩
  | answerPeer peer t =>
      simp only [timer?] at htimer
      split at htimer
      · cases htimer
      · rename_i hopen
        cases htimer
        have hfind : (s.perform (.answerPeer peer now)).session.table.find? id = _ :=
          find?_answerPeer (by simpa using hopen) peer now id
        refine ⟨rfl, ?_⟩
        rw [hfind, Option.map_map]
        simp only [Function.comp_def, Entry.settled_afterConfirm]
  | publish | subscribe | subscribeUri | receive | close | cancel => cases htimer

/-- Without timers, an entry under an id that is not stored loses its receipt at most. -/
theorem find?_of_unstored (htimer : s.timer? call = none)
    (hunstored : ∀ p ∈ s.storedBy call, p.id ≠ id) :
    ((s.perform call).session.table.find? id).map Entry.settled =
      (s.table.find? id).map Entry.settled := by
  cases call with
  | publish name payload t receipt =>
      rw [find?_perform]
      cases hfind : s.table.find? id with
      | some e => simp [entryAfter, hfind]
      | none =>
          have hother : ¬ (s.closed = false ∧ (Publication.stamped name t payload).id = id) := by
            rintro ⟨hopen, rfl⟩
            refine hunstored (.stamped name t payload) ?_ rfl
            simp [storedBy_publish, hopen, hfind]
          simp [entryAfter, hfind, hother]
  | receive publications t =>
      cases hclosed : s.closed with
      | true => simp [perform, Step.discard, receive, hclosed]
      | false =>
          have htaken : (s.taken publications t).find? (·.id = id) = none := by
            apply List.find?_eq_none.mpr
            intro p hp
            have hne := hunstored p (by simpa [storedBy, acceptedBy, hclosed] using hp)
            simpa using hne
          have hsession : (s.perform (.receive publications t)).session =
              (s.receiveEach publications t).session := session_receive hclosed publications t
          rw [hsession, find?_taken, htaken, Option.map_none, Option.or_none]
  | answerPeer peer t =>
      -- An open session would have run its timers.
      have hclosed : s.closed = true := by
        cases hclosed : s.closed with
        | true => rfl
        | false => simp [timer?, hclosed] at htimer
      simp [perform, Step.discard, answerPeer, hclosed]
  | close =>
      rw [find?_perform]
      simp only [entryAfter]
      split
      · rfl
      · rw [Option.map_map]
        rfl
  | advance t => cases htimer
  | subscribe topic => rfl
  | subscribeUri topic => exact congrArg (Option.map Entry.settled) (s.find?_perform _ id)
  | cancel token => rfl

end Session

end Bulletin
