import Bulletin.Proofs.Accounts
import Bulletin.Proofs.Offer

/-!
# Reordering — the order of the rows does not show

A table keeps its rows in no particular order. This file follows a session and its copy with the rows
in another order through an answer to a peer:

* `Session.Reorders` — the same session, with the rows of its table in any order;
* `Session.Reorders.find?`, `Session.Reorders.byId` — what is found, and the rows by ascending id, are
  the same;
* `Session.Reorders.advance`, `Session.Reorders.confirm` — timers and receipts leave the two the same
  but for the order of the rows;
* `Session.Reorders.answerPeer` — so they give the same answer, by the same events.
-/

namespace Bulletin

namespace Session

/-- The same session, with the rows of its table in any order. -/
structure Reorders (t s : Session) : Prop where
  rows : t.table.rows.Perm s.table.rows
  config : t.config = s.config
  policy : t.policy = s.policy
  summary : t.summary = s.summary
  subscriptions : t.subscriptions = s.subscriptions
  nextToken : t.nextToken = s.nextToken
  closed : t.closed = s.closed

namespace Reorders

variable {s t : Session}

theorem find? (h : t.Reorders s) (id : PublicationId) : t.table.find? id = s.table.find? id := by
  apply Option.ext
  intro e
  calc
    t.table.find? id = some e ↔ (id, e) ∈ t.table.rows := Table.mem_rows_iff.symm
    _ ↔ (id, e) ∈ s.table.rows := h.rows.mem_iff
    _ ↔ s.table.find? id = some e := Table.mem_rows_iff

/-- No two rows have the same key, so there is one way to sort them. -/
theorem byId (h : t.Reorders s) : t.table.byId = s.table.byId := by
  have hsorted (u : Table) : u.byId.Pairwise fun a b => a.1.Before b.1 :=
    List.pairwise_map.mp u.ascending_byId
  have hperm : t.table.byId.Perm s.table.byId :=
    (List.mergeSort_perm t.table.rows _).trans
      (h.rows.trans (List.mergeSort_perm s.table.rows _).symm)
  apply List.Perm.eq_of_pairwise _ (hsorted t.table) (hsorted s.table) hperm
  intro a b _ _ hab hba
  exact absurd rfl (hab.trans hba).ne

theorem advance (h : t.Reorders s) (now : Timestamp) :
    (t.advance now).session.Reorders (s.advance now).session ∧
      (t.advance now).events = (s.advance now).events := by
  constructor
  · refine ⟨?_, h.config, h.policy, ?_, h.subscriptions, h.nextToken, h.closed⟩
    · simp only [Session.advance, Table.update, h.config]
      exact h.rows.filterMap _
    · simp only [Session.advance, idsWhere, h.summary, h.config, h.byId]
  · simp only [Session.advance, h.config, h.byId]

theorem confirm (h : t.Reorders s) (peer : Summary) :
    (t.confirm peer).session.Reorders (s.confirm peer).session ∧
      (t.confirm peer).events = (s.confirm peer).events := by
  constructor
  · refine ⟨?_, h.config, h.policy, h.summary, h.subscriptions, h.nextToken, h.closed⟩
    exact h.rows.filterMap _
  · simp only [Session.confirm, h.byId]

theorem offer (h : t.Reorders s) (peer : Summary) : t.offer peer = s.offer peer := by
  simp only [Session.offer, candidates, h.policy, h.summary, funext h.find?]

/-- The order of the rows shows neither in an answer nor in the events on the way to it. -/
theorem answerPeer (h : t.Reorders s) (peer : Summary) (now : Timestamp) :
    (t.answerPeer peer now).answer = (s.answerPeer peer now).answer ∧
      (t.answerPeer peer now).events = (s.answerPeer peer now).events := by
  have hclosed := h.closed
  cases hopen : s.closed with
  | true => simp [Session.answerPeer, hopen, hclosed]
  | false =>
      rw [hopen] at hclosed
      obtain ⟨hadvanced, htimers⟩ := h.advance now
      obtain ⟨hconfirmed, hreceipts⟩ := hadvanced.confirm peer
      -- Both offer the same once timers and receipts are done.
      have hoffer : (t.answerPeer peer now).session.offer peer =
          (s.answerPeer peer now).session.offer peer := by
        rw [session_answerPeer hopen, session_answerPeer hclosed]
        exact hconfirmed.offer peer
      have hanswer : (t.answerPeer peer now).answer = (s.answerPeer peer now).answer := by
        rw [answer_answerPeer hopen, answer_answerPeer hclosed, hoffer, h.config]
      refine ⟨hanswer, ?_⟩
      rw [events_answerPeer hopen, events_answerPeer hclosed, htimers, hreceipts, hoffer, hanswer]

end Reorders

end Session

end Bulletin
