import Bulletin.Proofs.Answer.Reordering
import Bulletin.Proofs.Paging
import Bulletin.Proofs.Wire.Numeral

/-!
# Reply — what an answer is

Four stages make an answer: the timers run, what the peer lacks is looked up, the policy puts it in
order, and the budget cuts it off. This file tells the answer as a whole, for the lifecycle policy:

* `CutAt` — the longest beginning of a sequence that fits a budget, and `cutAt_page`;
* `Publication.Precedes` — newest first, equal timestamps by ascending id, and `precedes_newestFirst`;
* `Session.Candidate` — the entries that may be sent;
* `Session.Ranks` — the candidates that are own, or not, in this order;
* `Session.reply_exact` — an answer is cut off the own candidates followed by the others.
-/

namespace Bulletin

/-! ## Cutting at the budget -/

/-- A reply is the longest beginning of a sequence that fits the budget, or the first publication by
itself when that does not fit. -/
structure CutAt (budget : Nat) (sequence reply : List Publication) : Prop where
  start : reply <+: sequence
  nonempty : reply ≠ []
  fits : (∀ p ∈ sequence.head?, p.size ≤ budget) → totalSize reply ≤ budget
  longest : ∀ other, other <+: sequence → totalSize other ≤ budget → other <+: reply
  alone : ∀ p ∈ sequence.head?, budget < p.size → reply = [p]

theorem size_fill {budget used : Nat} (h : used ≤ budget) (publications : List Publication) :
    used + totalSize (fill budget used publications) ≤ budget := by
  induction publications generalizing used with
  | nil => simpa [fill, totalSize] using h
  | cons p rest ih =>
      simp only [fill]
      split
      · rename_i hfits
        have hrest := ih hfits
        simpa [totalSize, Nat.add_assoc] using hrest
      · simpa [totalSize] using h

/-- What fits is filled in: a beginning that goes on further does not fit. -/
theorem prefix_fill {budget used : Nat} {publications other : List Publication}
    (hstart : other <+: publications) (hfits : used + totalSize other ≤ budget) :
    other <+: fill budget used publications := by
  induction publications generalizing used other with
  | nil => simpa [fill] using hstart
  | cons p rest ih =>
      cases other with
      | nil => exact List.nil_prefix
      | cons q more =>
          obtain ⟨rfl, hmore⟩ := List.cons_prefix_cons.mp hstart
          have hsum : used + q.size + totalSize more ≤ budget := by
            simpa [totalSize, Nat.add_assoc] using hfits
          have hnext : used + q.size ≤ budget := Nat.le_trans (Nat.le_add_right _ _) hsum
          simp only [fill, if_pos hnext]
          exact List.cons_prefix_cons.mpr ⟨rfl, ih hmore hsum⟩

theorem cutAt_page (budget : Nat) {sequence : List Publication} (h : sequence ≠ []) :
    CutAt budget sequence (page budget sequence) := by
  cases sequence with
  | nil => exact absurd rfl h
  | cons first rest =>
      refine ⟨page_isPrefix budget _, by simp [page], ?_, ?_, ?_⟩
      · intro hsmall
        exact size_fill (hsmall first rfl) rest
      · intro other hstart hfits
        cases other with
        | nil => exact List.nil_prefix
        | cons p more =>
            obtain ⟨rfl, hmore⟩ := List.cons_prefix_cons.mp hstart
            exact List.cons_prefix_cons.mpr ⟨rfl, prefix_fill hmore hfits⟩
      · intro p hfirst hlarge
        cases hfirst
        exact page_of_oversize hlarge rest

/-! ## Newest first -/

/-- The newer one comes first, and of two with the same timestamp the one with the lower id. -/
def Publication.Precedes (p q : Publication) : Prop :=
  q.timestamp < p.timestamp ∨ p.timestamp = q.timestamp ∧ p.id.Before q.id

namespace Publication

variable {p q : Publication}

theorem precedes_of_notOlder (h : notOlder p q = true) (hid : p.id.Before q.id) : p.Precedes q := by
  have hle : q.timestamp ≤ p.timestamp := of_decide_eq_true h
  rcases Nat.eq_or_lt_of_le hle with hsame | hnewer
  · exact Or.inr ⟨Timestamp.eq_of_toNat hsame.symm, hid⟩
  · exact Or.inl hnewer

theorem precedes_of_older (h : notOlder p q = false) : q.Precedes p :=
  Or.inl (Nat.lt_of_not_le (of_decide_eq_false h))

end Publication

/-- Sorting keeps the order of equal timestamps, and that was the order of ids. By induction on the
list: the first publication has the lowest id, so it comes right before those that are not newer. -/
theorem precedes_newestFirst {publications : List Publication}
    (h : publications.Pairwise fun p q => p.id.Before q.id) :
    (newestFirst publications).Pairwise Publication.Precedes := by
  induction publications with
  | nil => simp [newestFirst]
  | cons p rest ih =>
      obtain ⟨hlowest, hrest⟩ := List.pairwise_cons.mp h
      have hsorted := ih hrest
      obtain ⟨hcons, hsplit⟩ := newestFirst_cons p rest
      have hacross := (List.pairwise_append.mp (hsplit ▸ hsorted)).2.2
      rw [hcons]
      refine List.pairwise_append.mpr
        ⟨hsorted.filter _, List.pairwise_cons.mpr ⟨?_, hsorted.filter _⟩, ?_⟩
      · intro q hq
        obtain ⟨hmem, hnot⟩ := List.mem_filter.mp hq
        exact Publication.precedes_of_notOlder hnot (hlowest q (mem_newestFirst.mp hmem))
      · intro q hq r hr
        rcases List.mem_cons.mp hr with rfl | hbehind
        · obtain ⟨-, hnewer⟩ := List.mem_filter.mp hq
          exact Publication.precedes_of_older (by simpa using hnewer)
        · exact hacross q hq r hbehind

/-! ## Candidates in order -/

namespace Session

/-- The entry under an id may be sent to a peer: it is on offer, it has not expired, and the peer lacks
it. -/
structure Candidate (s : Session) (peer : Summary) (id : PublicationId) (e : Entry) : Prop where
  found : s.table.find? id = some e
  offered : id ∈ s.summary.ids
  unexpired : e.expired = false
  lacking : id ∉ peer.ids

/-- The publications of the candidates that are own, or of those that are not, newest first and equal
timestamps by ascending id. -/
structure Ranks (s : Session) (peer : Summary) (own : Bool) (publications : List Publication) :
    Prop where
  order : publications.Pairwise Publication.Precedes
  mem : ∀ p, p ∈ publications ↔ ∃ id e, s.Candidate peer id e ∧ e.own = own ∧ e.publication = p

variable {s : Session} {peer : Summary} {own : Bool}

theorem mem_share_iff_candidate {p : Publication} :
    p ∈ s.share peer own ↔ ∃ id e, s.Candidate peer id e ∧ e.own = own ∧ e.publication = p := by
  simp only [mem_share_iff, Summary.mem_missingFrom, unexpired?_eq_some]
  constructor
  · rintro ⟨id, ⟨hoffered, hlacking⟩, e, hfind, hunexpired, hown, hpublication⟩
    exact ⟨id, e, ⟨hfind, hoffered, hunexpired, hlacking⟩, hown, hpublication⟩
  · rintro ⟨id, e, hcandidate, hown, hpublication⟩
    exact ⟨id, ⟨hcandidate.offered, hcandidate.lacking⟩, e, hcandidate.found, hcandidate.unexpired,
      hown, hpublication⟩

/-- Candidates are looked up by ascending id, which is the id of their publication. -/
theorem Consistent.ascending_share (h : s.Consistent) (peer : Summary) (own : Bool) :
    (s.share peer own).Pairwise fun p q => p.id.Before q.id := by
  have hids : (s.summary.missingFrom peer).Pairwise PublicationId.Before :=
    s.summary.ascending.filter _
  rw [share_eq_filterMap]
  apply List.pairwise_filterMap.mpr
  apply hids.imp
  intro a b hbefore p hp q hq
  rw [h.id_of_unexpired? hp, h.id_of_unexpired? hq]
  exact hbefore

theorem Consistent.ranks_newestFirst (h : s.Consistent) (peer : Summary) (own : Bool) :
    s.Ranks peer own (newestFirst (s.share peer own)) where
  order := precedes_newestFirst (h.ascending_share peer own)
  mem _ := mem_newestFirst.trans mem_share_iff_candidate

/-- Giving receipts does not change what is on offer. -/
theorem share_confirm (s : Session) (peer : Summary) (own : Bool) :
    (s.confirm peer).session.share peer own = s.share peer own := by
  have hsame (id : PublicationId) :
      (s.confirm peer).session.unexpired? own id = s.unexpired? own id := by
    unfold unexpired?
    rw [find?_confirm]
    cases s.table.find? id with
    | none => rfl
    | some e => simp [Entry.afterConfirm_eq, Option.filter]
  calc
    (s.confirm peer).session.share peer own
        = (s.summary.missingFrom peer).filterMap ((s.confirm peer).session.unexpired? own) :=
        share_eq_filterMap _ peer own
    _ = (s.summary.missingFrom peer).filterMap (s.unexpired? own) :=
        List.filterMap_congr fun id _ => hsame id
    _ = s.share peer own := (share_eq_filterMap s peer own).symm

/-- An answer of the lifecycle policy is a page of the ranked candidates, own ones first, once the
timers have run; there is none without an own candidate. -/
theorem answer_of_shares {w : Window} (hopen : s.closed = false) (hpolicy : s.policy = .lifecycle w)
    (peer : Summary) (now : Timestamp) :
    let ours := (s.advance now).session.share peer true
    let others := (s.advance now).session.share peer false
    (s.answerPeer peer now).answer =
      if ours = [] then none
      else some (page s.config.budget.toNat (newestFirst ours ++ newestFirst others)) := by
  intro ours others
  have hconfirmed : ((s.advance now).session.confirm peer).session.policy = .lifecycle w := hpolicy
  have hoffer : (s.answerPeer peer now).session.offer peer = reconcile ours others := by
    rw [session_answerPeer hopen, offer_eq_reconcile hconfirmed, share_confirm, share_confirm]
  rw [answer_answerPeer hopen, hoffer]
  by_cases hours : ours = []
  · simp [reconcile, hours]
  · have hne : reconcile ours others ≠ [] := fun hnil => hours (reconcile_eq_nil_iff.mp hnil)
    rw [if_neg hours, if_neg (by simpa using hne)]
    simp [reconcile, hours]

/-- What may be sent once the timers have run is active and unexpired still when the answer is made. -/
theorem Consistent.candidate_answerPeer (h : s.Consistent) (hopen : s.closed = false) {now : Timestamp}
    {id : PublicationId} {e : Entry} (hcandidate : (s.advance now).session.Candidate peer id e) :
    e.publication.id = id ∧ ∃ e', (s.answerPeer peer now).session.Candidate peer id e' ∧
      e'.publication = e.publication ∧ e'.active = true := by
  have hadvanced : (s.advance now).session.Consistent := h.perform (.advance now)
  obtain ⟨found, hfound, hactive⟩ := (hadvanced.offered id).mp hcandidate.offered
  cases hcandidate.found.symm.trans hfound
  have hfind : ((s.advance now).session.confirm peer).session.table.find? id =
      some (e.afterConfirm id peer) := by
    rw [find?_confirm, hfound]
    rfl
  rw [session_answerPeer hopen]
  rw [Entry.afterConfirm_eq] at hfind
  exact ⟨hadvanced.keyed id e hfound, _,
    ⟨hfind, hcandidate.offered, hcandidate.unexpired, hcandidate.lacking⟩, rfl, hactive⟩

theorem Consistent.candidate_of_mem_shares (h : s.Consistent) (hopen : s.closed = false)
    {now : Timestamp} {p : Publication}
    (hmem : p ∈ (s.advance now).session.share peer true ++ (s.advance now).session.share peer false) :
    ∃ e, (s.answerPeer peer now).session.Candidate peer p.id e ∧ e.publication = p ∧
      e.active = true := by
  have hcandidate : ∃ id e, (s.advance now).session.Candidate peer id e ∧ e.publication = p := by
    rcases List.mem_append.mp hmem with hmem | hmem
    · obtain ⟨id, e, hcandidate, -, hpublication⟩ := mem_share_iff_candidate.mp hmem
      exact ⟨id, e, hcandidate, hpublication⟩
    · obtain ⟨id, e, hcandidate, -, hpublication⟩ := mem_share_iff_candidate.mp hmem
      exact ⟨id, e, hcandidate, hpublication⟩
  obtain ⟨id, e, hcandidate, rfl⟩ := hcandidate
  obtain ⟨rfl, hstill⟩ := h.candidate_answerPeer hopen hcandidate
  exact hstill

/-- What an answer is. Whatever was done with a session of the lifecycle policy, let the timers run to
`now`, and take the candidates: the entries on offer that have not expired and that the peer lacks.
There is no answer exactly when no candidate is own. Otherwise it is cut off the sequence of all own
candidates followed by all others, each newest first and equal timestamps by ascending id. The cut is
after the last publication with which the reply fits the budget, or after the first one. The reply
names no id twice, and all of its publications are active, unexpired and not with the peer. The order
of the rows of the table does not matter. -/
theorem reply_exact (config : SessionConfig) (w : Window) (s : Session) (calls : List Call)
    (peer : Summary) (now : Timestamp) (hopen : openWith config (.lifecycle w) = .ok s)
    (hlive : (s.after calls).closed = false) :
    let board := s.after calls
    let ticked := (board.advance now).session
    let answered := board.answerPeer peer now
    ∃ ours others, ticked.Ranks peer true ours ∧ ticked.Ranks peer false others ∧
      (answered.answer = none ↔ ∀ id e, ticked.Candidate peer id e → e.own = false) ∧
      (∀ reply, answered.answer = some reply →
        CutAt config.budget.toNat (ours ++ others) reply ∧
          (reply.map Publication.id).Nodup ∧
          ∀ p ∈ reply, ∃ e, answered.session.Candidate peer p.id e ∧ e.publication = p ∧
            e.active = true) ∧
      ∀ t : Session, t.Reorders board → (t.answerPeer peer now).answer = answered.answer := by
  intro board ticked answered
  have hconsistent : board.Consistent := Consistent.of_openWith hopen calls
  have hticked : ticked.Consistent := hconsistent.perform (.advance now)
  have hsettings : board.config = config ∧ board.policy = .lifecycle w :=
    settings_of_openWith hopen calls
  have hours := hticked.ranks_newestFirst peer true
  have hothers := hticked.ranks_newestFirst peer false
  have hanswer : answered.answer =
      if ticked.share peer true = [] then none
      else some (page config.budget.toNat
        (newestFirst (ticked.share peer true) ++ newestFirst (ticked.share peer false))) := by
    rw [← hsettings.1]
    exact answer_of_shares hlive hsettings.2 peer now
  refine ⟨_, _, hours, hothers, ?_, ?_, ?_⟩
  · -- Without an answer there is no own candidate, and the other way round.
    calc
      answered.answer = none ↔ ticked.share peer true = [] := by simp [hanswer]
      _ ↔ ∀ p, p ∉ ticked.share peer true := List.eq_nil_iff_forall_not_mem
      _ ↔ ∀ id e, ticked.Candidate peer id e → e.own = false := by
          simp only [mem_share_iff_candidate]
          constructor
          · intro hnone id e hcandidate
            cases hown : e.own with
            | false => rfl
            | true => exact absurd ⟨id, e, hcandidate, hown, rfl⟩ (hnone e.publication)
          · rintro hforeign p ⟨id, e, hcandidate, hown, -⟩
            rw [hforeign id e hcandidate] at hown
            cases hown
  · intro reply hreply
    rw [hanswer] at hreply
    split at hreply
    · cases hreply
    · rename_i hsome
      cases hreply
      have hperm := perm_newestFirst (ticked.share peer true) (ticked.share peer false)
      have hne :
          newestFirst (ticked.share peer true) ++ newestFirst (ticked.share peer false) ≠ [] := by
        intro hnil
        rw [hnil] at hperm
        exact hsome (List.append_eq_nil_iff.mp hperm.nil_eq.symm).1
      have hcut := cutAt_page config.budget.toNat hne
      refine ⟨hcut, ?_, ?_⟩
      · have hnodup := (hperm.map Publication.id).nodup_iff.mpr (hticked.nodup_shares peer)
        exact (hcut.start.sublist.map Publication.id).nodup hnodup
      · intro p hp
        exact hconsistent.candidate_of_mem_shares hlive (hperm.mem_iff.mp (hcut.start.subset hp))
  · intro t hreorders
    exact (hreorders.answerPeer peer now).1

/-- Two own publications with the same timestamp and one of another session, all larger than the budget:
the answer is one publication, and still an answer. -/
theorem reply_exact_oversize :
    let config : SessionConfig := { budget := 1 }
    let s := fresh config (.lifecycle config.window)
    let calls : List Call :=
      [.publish .root [7] .zero none, .publish .root [8] .zero none,
        .receive [.stamped .root .zero [9]] .zero]
    let answered := (s.after calls).answerPeer .empty .zero
    openDefault config = .ok s ∧ (s.after calls).closed = false ∧
      ∃ p, answered.answer = some [p] ∧ 1 < p.size ∧
        ∃ e, answered.session.Candidate .empty p.id e ∧ e.publication = p ∧ e.active = true := by
  intro config s calls answered
  have hopen : openWith config (.lifecycle config.window) = .ok s := rfl
  have hlive : (s.after calls).closed = false := open_after rfl (by simp [calls])
  obtain ⟨ours, others, -, -, hnone, hsome, -⟩ :=
    reply_exact config config.window s calls .empty .zero hopen hlive
  let own := Entry.arrival (.stamped .root .zero [7]) true .zero none
  have hconsistent : (s.after calls).Consistent := Consistent.of_openWith hopen calls
  have hticked : ((s.after calls).advance .zero).session.Consistent :=
    hconsistent.perform (.advance .zero)
  have hfind : ((s.after calls).advance .zero).session.table.find? own.publication.id = some own := by
    decide +kernel
  have hown : ((s.after calls).advance .zero).session.Candidate .empty own.publication.id own :=
    ⟨hfind, (hticked.offered _).mpr ⟨own, hfind, rfl⟩, rfl, List.not_mem_nil⟩
  cases hanswer : answered.answer with
  | none =>
      have hforeign := hnone.mp hanswer _ _ hown
      cases hforeign
  | some reply =>
      obtain ⟨hcut, -, hmem⟩ := hsome reply hanswer
      have hlarge (p : Publication) : 1 < p.size := by
        -- The name of a publication has a type and a length at least.
        have htype := Wire.varSize_pos Name.elementType
        have hlength := Wire.varSize_pos (Component.totalSize p.name.components)
        unfold Publication.size Name.encodedSize Wire.Element.size
        omega
      cases hsequence : ours ++ others with
      | nil =>
          rw [hsequence] at hcut
          exact absurd (List.prefix_nil.mp hcut.start) hcut.nonempty
      | cons p rest =>
          rw [hsequence] at hcut
          cases hcut.alone p rfl (hlarge p)
          exact ⟨hopen, hlive, p, rfl, hlarge p, hmem p List.mem_cons_self⟩

end Session

end Bulletin
