import Bulletin.Proofs.Effects

/-!
# Offer — what an answer holds

An answer is made from the candidates: the entries of the summary that have not expired and that the
peer lacks. With the lifecycle policy one's own come first, and there is no answer without one:

* `Session.mem_candidates_iff` — which entries are candidates;
* `Session.offer_eq_nil_iff`, `Session.offer_head` — an offer is empty without an own candidate, and
  starts with one otherwise;
* `Session.answer_answerPeer` — the answer is a page of the offer;
* `Session.answer_of_own_candidate` — an own candidate is enough for an answer.
-/

namespace Bulletin

/-! ## Pages -/

theorem fill_isPrefix (budget used : Nat) (publications : List Publication) :
    fill budget used publications <+: publications := by
  induction publications generalizing used with
  | nil => exact List.prefix_rfl
  | cons first rest ih =>
      simp only [fill]
      split
      · exact List.cons_prefix_cons.mpr ⟨rfl, ih (used + first.size)⟩
      · exact List.nil_prefix

theorem page_isPrefix (budget : Nat) (publications : List Publication) :
    page budget publications <+: publications := by
  cases publications with
  | nil => exact List.prefix_rfl
  | cons first rest => exact List.cons_prefix_cons.mpr ⟨rfl, fill_isPrefix budget first.size rest⟩

theorem mem_of_mem_page {budget : Nat} {publications : List Publication} {p : Publication}
    (h : p ∈ page budget publications) : p ∈ publications :=
  (page_isPrefix budget publications).subset h

theorem fill_eq_nil {budget used : Nat} (h : budget < used) (publications : List Publication) :
    fill budget used publications = [] := by
  cases publications with
  | nil => rfl
  | cons p rest =>
      have hover : ¬ used + p.size ≤ budget := Nat.not_le_of_lt (Nat.lt_add_right p.size h)
      simp only [fill, if_neg hover]

/-- A publication that exceeds the budget goes alone. -/
theorem page_of_oversize {budget : Nat} {p : Publication} (h : budget < p.size)
    (rest : List Publication) : page budget (p :: rest) = [p] := by
  rw [page, fill_eq_nil h]

/-! ## The order of an answer -/

theorem mem_newestFirst {publications : List Publication} {p : Publication} :
    p ∈ newestFirst publications ↔ p ∈ publications :=
  List.mem_mergeSort

theorem reconcile_eq_nil_iff {ours others : List Publication} :
    reconcile ours others = [] ↔ ours = [] := by
  cases ours with
  | nil => simp [reconcile]
  | cons first rest =>
      have hlength : (newestFirst (first :: rest)).length = rest.length + 1 :=
        List.length_mergeSort _
      have hne : newestFirst (first :: rest) ≠ [] := by
        intro hnil
        rw [hnil] at hlength
        cases hlength
      simp [reconcile, hne]

theorem mem_of_mem_reconcile {ours others : List Publication} {p : Publication}
    (h : p ∈ reconcile ours others) : p ∈ ours ∨ p ∈ others := by
  unfold reconcile at h
  split at h
  · cases h
  · rcases List.mem_append.mp h with hours | hothers
    · exact Or.inl (mem_newestFirst.mp hours)
    · exact Or.inr (mem_newestFirst.mp hothers)

/-- One's own publications come first. -/
theorem reconcile_head {ours others : List Publication} {first : Publication}
    {rest : List Publication} (h : reconcile ours others = first :: rest) : first ∈ ours := by
  unfold reconcile at h
  split at h
  · cases h
  · rename_i hours
    cases hsorted : newestFirst ours with
    | nil =>
        have hlength : (newestFirst ours).length = ours.length := List.length_mergeSort _
        rw [hsorted] at hlength
        have hnil : ours = [] := List.length_eq_zero_iff.mp hlength.symm
        exact absurd (by simp [hnil]) hours
    | cons newest older =>
        rw [hsorted] at h
        cases h
        exact mem_newestFirst.mp (hsorted ▸ List.mem_cons_self)

/-- The policy picks from what it is given and makes nothing up. -/
def Policy.Selects (policy : Policy) : Prop :=
  ∀ ours others, ∀ p ∈ policy.arrange ours others, p ∈ ours ∨ p ∈ others

theorem Policy.selects_lifecycle (w : Window) : (Policy.lifecycle w).Selects :=
  fun _ _ _ h => mem_of_mem_reconcile h

/-! ## Candidates -/

namespace Session

variable {s : Session} {peer : Summary}

theorem mem_candidates_iff {e : Entry} :
    e ∈ s.candidates peer ↔
      ∃ id, id ∈ s.summary.ids ∧ id ∉ peer.ids ∧ s.table.find? id = some e ∧ e.expired = false := by
  simp only [candidates, List.mem_filter, List.mem_filterMap, Summary.mem_missingFrom]
  constructor
  · rintro ⟨⟨id, ⟨hoffered, hlacking⟩, hfind⟩, hunexpired⟩
    exact ⟨id, hoffered, hlacking, hfind, by simpa using hunexpired⟩
  · rintro ⟨id, hoffered, hlacking, hfind, hunexpired⟩
    exact ⟨⟨id, ⟨hoffered, hlacking⟩, hfind⟩, by simp [hunexpired]⟩

theorem offer_of_lifecycle {w : Window} (hpolicy : s.policy = .lifecycle w) :
    s.offer peer =
      reconcile (((s.candidates peer).filter (·.own)).map (·.publication))
        (((s.candidates peer).filter fun e => !e.own).map (·.publication)) := by
  rw [offer, hpolicy]
  rfl

theorem offer_eq_nil_iff {w : Window} (hpolicy : s.policy = .lifecycle w) :
    s.offer peer = [] ↔ ∀ e ∈ s.candidates peer, e.own = false := by
  rw [offer_of_lifecycle hpolicy, reconcile_eq_nil_iff]
  simp [List.filter_eq_nil_iff]

theorem offer_head {w : Window} (hpolicy : s.policy = .lifecycle w) {first : Publication}
    {rest : List Publication} (h : s.offer peer = first :: rest) :
    ∃ e ∈ s.candidates peer, e.own = true ∧ e.publication = first := by
  rw [offer_of_lifecycle hpolicy] at h
  rcases List.mem_map.mp (reconcile_head h) with ⟨e, hmem, hpublication⟩
  rcases List.mem_filter.mp hmem with ⟨hcandidate, hown⟩
  exact ⟨e, hcandidate, hown, hpublication⟩

/-- What a policy that makes nothing up has on offer comes from candidates. -/
theorem candidate_of_selects (hselects : s.policy.Selects) {p : Publication}
    (h : p ∈ s.offer peer) : ∃ e ∈ s.candidates peer, e.publication = p := by
  rcases hselects _ _ p h with hours | hothers
  · rcases List.mem_map.mp hours with ⟨e, hmem, hpublication⟩
    exact ⟨e, (List.mem_filter.mp hmem).1, hpublication⟩
  · rcases List.mem_map.mp hothers with ⟨e, hmem, hpublication⟩
    exact ⟨e, (List.mem_filter.mp hmem).1, hpublication⟩

theorem candidate_of_mem_offer {w : Window} (hpolicy : s.policy = .lifecycle w) {p : Publication}
    (h : p ∈ s.offer peer) : ∃ e ∈ s.candidates peer, e.publication = p :=
  candidate_of_selects (hpolicy ▸ Policy.selects_lifecycle w) h

/-- The answer of an open session is a page of what it has on offer once timers and receipts are
done, if anything is. -/
theorem answer_answerPeer (hopen : s.closed = false) (peer : Summary) (now : Timestamp) :
    (s.answerPeer peer now).answer =
      if ((s.answerPeer peer now).session.offer peer).isEmpty then none
      else some (page s.config.budget.toNat ((s.answerPeer peer now).session.offer peer)) := by
  rw [session_answerPeer hopen]
  simp only [answerPeer, hopen, Bool.false_eq_true, if_false]
  split
  · rfl
  · rfl

/-- What an answer holds is on offer once the timers have run. -/
theorem mem_offer_of_answer {now : Timestamp} {p : Publication} {reply : List Publication}
    (hanswer : (s.answerPeer peer now).answer = some reply) (hmem : p ∈ reply) :
    s.closed = false ∧ p ∈ (s.answerPeer peer now).session.offer peer := by
  cases hclosed : s.closed with
  | true => simp [answerPeer, hclosed] at hanswer
  | false =>
      rw [answer_answerPeer hclosed] at hanswer
      split at hanswer
      · cases hanswer
      · cases hanswer
        exact ⟨rfl, mem_of_mem_page hmem⟩

/-- An open session with an own candidate gives an answer, and an own candidate comes first. -/
theorem answer_of_own_candidate {w : Window} {now : Timestamp} {e : Entry}
    (hopen : s.closed = false)
    (hpolicy : (s.answerPeer peer now).session.policy = .lifecycle w)
    (hcandidate : e ∈ (s.answerPeer peer now).session.candidates peer) (hown : e.own = true) :
    ∃ first others, (s.answerPeer peer now).answer = some (first.publication :: others) ∧
      first ∈ (s.answerPeer peer now).session.candidates peer ∧ first.own = true := by
  have hanswer := answer_answerPeer hopen peer now
  cases hoffer : (s.answerPeer peer now).session.offer peer with
  | nil =>
      rw [(offer_eq_nil_iff hpolicy).mp hoffer e hcandidate] at hown
      cases hown
  | cons p rest =>
      rcases offer_head hpolicy hoffer with ⟨first, hfirst, howned, rfl⟩
      rw [hoffer] at hanswer
      exact ⟨first, _, hanswer, hfirst, howned⟩

end Session

end Bulletin
