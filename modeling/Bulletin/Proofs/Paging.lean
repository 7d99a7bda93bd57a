import Bulletin.Proofs.Invariant
import Bulletin.Proofs.Merging
import Bulletin.Proofs.Offer
import Mathlib.Data.List.Sort

/-!
# Paging — answers that follow each other

An answer is cut at the budget, so a peer learns what a session has on offer page by page: it adds
what it received to its summary and asks again. This file follows such a course of answers at a
clock that stands still:

* `Session.Current` — the timers have run to the time of the clock, so they change nothing more;
* `Session.Consistent.share_next` — what is on offer next is what was on offer less the page that was
  sent;
* `Session.Consistent.answer_of_only` — what a session answers whose only entry is its own;
* `Session.Pages` — a course of answers, until there is none;
* `Session.Pages.eq_map_singleton` — where nothing fits the budget, every page has one publication;
* `Session.pages_exhaust_own` — the pages are one sequence cut into pieces, and every own
  publication is on one of them.
-/

namespace Bulletin

/-! ## What a peer learns -/

namespace Summary

def learn (peer : Summary) (publications : List Publication) : Summary :=
  publications.foldl (fun known p => known.insert p.id) peer

theorem mem_learn {peer : Summary} {publications : List Publication} {id : PublicationId} :
    id ∈ (peer.learn publications).ids ↔ id ∈ peer.ids ∨ id ∈ publications.map Publication.id := by
  induction publications generalizing peer with
  | nil => simp [learn]
  | cons p rest ih =>
      have hrest : id ∈ (peer.learn (p :: rest)).ids ↔
          id ∈ (peer.insert p.id).ids ∨ id ∈ rest.map Publication.id := ih
      rw [hrest, mem_insert, List.map_cons, List.mem_cons]
      tauto

theorem missingFrom_learn (s peer : Summary) (publications : List Publication) :
    s.missingFrom (peer.learn publications) =
      (s.missingFrom peer).filter fun id => !(publications.map Publication.id).contains id := by
  unfold missingFrom
  rw [List.filter_filter]
  refine List.filter_congr fun id _ => ?_
  rw [Bool.eq_iff_iff]
  simp only [Bool.not_eq_true', Bool.and_eq_true, ← Bool.not_eq_true, contains_iff, mem_learn,
    List.contains_iff_mem]
  tauto

end Summary

/-! ## Timers that run twice -/

namespace Entry

variable {e e' : Entry} {w : Window} {now : Timestamp}

/-- Timers that have run do not run again. -/
theorem aged_again (h : e.aged w now = some e') : e'.aged w now = some e' := by
  have harrived : e'.arrived = e.arrived := by rw [aged_eq_some h]
  have hkept : e'.isForgotten w now = false := by
    rw [← Bool.not_eq_true, isForgotten_iff, harrived, ← aged_eq_none_iff, h]
    simp
  have hexpires : e'.expires w now = false := by
    rw [← Bool.not_eq_true, expires_iff, harrived]
    rintro ⟨hunexpired, hdue⟩
    rw [(expired_of_aged h).mpr (Or.inr hdue)] at hunexpired
    cases hunexpired
  have hstays : e'.unpublishes w now = false := by
    cases hactive : e'.active with
    | false => simp [unpublishes, hactive]
    | true =>
        have hearly := ((active_of_aged h).mp hactive).2
        simp [unpublishes, hkept, harrived, hearly]
  simp [aged, hkept, hexpires, hstays]

end Entry

namespace Session

variable {s : Session} {peer : Summary} {now : Timestamp}

/-- The timers have run to `now`. -/
def Current (s : Session) (now : Timestamp) : Prop :=
  ∀ id e, s.table.find? id = some e → e.aged s.config.window now = some e

theorem current_answerPeer (hopen : s.closed = false) (peer : Summary) (now : Timestamp) :
    (s.answerPeer peer now).session.Current now := by
  intro id e hfind
  have hconfig : (s.answerPeer peer now).session.config = s.config :=
    (s.settings_perform (.answerPeer peer now)).1
  rw [find?_answerPeer hopen] at hfind
  rcases Option.map_eq_some_iff.mp hfind with ⟨aged, hbind, rfl⟩
  rcases Option.bind_eq_some_iff.mp hbind with ⟨old, -, haged⟩
  have hagain := Entry.aged_again haged
  rw [hconfig]
  unfold Entry.afterConfirm
  split
  · rw [Entry.aged_settled, hagain]
    rfl
  · exact hagain

theorem Current.find?_answerPeer (h : s.Current now) (hopen : s.closed = false) (peer : Summary)
    (id : PublicationId) :
    (s.answerPeer peer now).session.table.find? id =
      (s.table.find? id).map (·.afterConfirm id peer) := by
  rw [Session.find?_answerPeer hopen]
  cases hfind : s.table.find? id with
  | none => rfl
  | some e => simp [h id e hfind]

/-! ## Shares of an offer -/

/-- The publications of the candidates that are own or not, by ascending id. -/
def share (s : Session) (peer : Summary) (own : Bool) : List Publication :=
  ((s.candidates peer).filter fun e => e.own == own).map (·.publication)

/-- The publication under an id, if it is own or not as asked and has not expired. -/
def unexpired? (s : Session) (own : Bool) (id : PublicationId) : Option Publication :=
  ((s.table.find? id).filter fun e => !e.expired && e.own == own).map (·.publication)

theorem share_eq_filterMap (s : Session) (peer : Summary) (own : Bool) :
    s.share peer own = (s.summary.missingFrom peer).filterMap (s.unexpired? own) := by
  unfold share candidates
  rw [List.filter_filter, List.filter_filterMap, List.map_filterMap]
  refine List.filterMap_congr fun id _ => ?_
  simp only [unexpired?, Bool.and_comm]

theorem offer_eq_reconcile {w : Window} (hpolicy : s.policy = .lifecycle w) (peer : Summary) :
    s.offer peer = reconcile (s.share peer true) (s.share peer false) := by
  rw [offer_of_lifecycle hpolicy]
  simp [share]

theorem unexpired?_eq_some {own : Bool} {id : PublicationId} {p : Publication} :
    s.unexpired? own id = some p ↔
      ∃ e, s.table.find? id = some e ∧ e.expired = false ∧ e.own = own ∧ e.publication = p := by
  simp [unexpired?, Option.filter_eq_some_iff, and_assoc]

theorem mem_share_iff {own : Bool} {p : Publication} :
    p ∈ s.share peer own ↔ ∃ id ∈ s.summary.missingFrom peer, s.unexpired? own id = some p := by
  rw [share_eq_filterMap, List.mem_filterMap]

theorem Consistent.id_of_unexpired? (h : s.Consistent) {own : Bool} {id : PublicationId}
    {p : Publication} (hfind : s.unexpired? own id = some p) : p.id = id := by
  rcases unexpired?_eq_some.mp hfind with ⟨e, hentry, -, -, rfl⟩
  exact h.keyed id e hentry

theorem Consistent.nodup_share (h : s.Consistent) (peer : Summary) (own : Bool) :
    ((s.share peer own).map Publication.id).Nodup := by
  rw [share_eq_filterMap, List.map_filterMap]
  apply List.Nodup.filterMap
  · intro a b id ha hb
    rcases Option.map_eq_some_iff.mp ha with ⟨p, hp, rfl⟩
    rcases Option.map_eq_some_iff.mp hb with ⟨q, hq, hsame⟩
    calc
      a = p.id := (h.id_of_unexpired? hp).symm
      _ = q.id := hsame.symm
      _ = b := h.id_of_unexpired? hq
  · exact s.summary.nodup.filter _

/-- A session offers every id once, whoever published it. -/
theorem Consistent.nodup_shares (h : s.Consistent) (peer : Summary) :
    ((s.share peer true ++ s.share peer false).map Publication.id).Nodup := by
  have horigin (own : Bool) (p : Publication) (hmem : p ∈ s.share peer own) :
      ∃ e, s.table.find? p.id = some e ∧ e.own = own := by
    rcases mem_share_iff.mp hmem with ⟨id, -, hfind⟩
    rw [h.id_of_unexpired? hfind]
    rcases unexpired?_eq_some.mp hfind with ⟨e, hentry, -, hown, -⟩
    exact ⟨e, hentry, hown⟩
  rw [List.map_append]
  refine List.nodup_append.mpr ⟨h.nodup_share peer true, h.nodup_share peer false, ?_⟩
  intro id hours other hothers hsame
  rcases List.mem_map.mp hours with ⟨p, hp, rfl⟩
  rcases List.mem_map.mp hothers with ⟨q, hq, rfl⟩
  rcases horigin true p hp with ⟨ours, hfind, hown⟩
  rcases horigin false q hq with ⟨theirs, hfind', hforeign⟩
  -- One id has one entry, and that is own or not.
  rw [hsame, hfind'] at hfind
  cases hfind
  rw [hown] at hforeign
  cases hforeign

/-- An answer at the time of the clock leaves the summary and the unexpired publications alone. -/
theorem Consistent.unchanged_answerPeer (h : s.Consistent) (hopen : s.closed = false)
    (hcurrent : s.Current now) (peer : Summary) :
    (s.answerPeer peer now).session.summary = s.summary ∧
      ∀ own id, (s.answerPeer peer now).session.unexpired? own id = s.unexpired? own id := by
  have hentry := hcurrent.find?_answerPeer hopen peer
  have hconsistent : (s.answerPeer peer now).session.Consistent := h.perform (.answerPeer peer now)
  constructor
  · apply Summary.eq_of_mem_iff
    intro id
    rw [hconsistent.offered, h.offered, hentry]
    cases s.table.find? id with
    | none => simp
    | some e => simp [Entry.afterConfirm_eq]
  · intro own id
    rw [unexpired?, hentry, unexpired?]
    cases s.table.find? id with
    | none => rfl
    | some e => simp [Entry.afterConfirm_eq, Option.filter]

theorem Consistent.share_answerPeer (h : s.Consistent) (hopen : s.closed = false)
    (hcurrent : s.Current now) (peer : Summary) (own : Bool) :
    (s.answerPeer peer now).session.share peer own = s.share peer own := by
  rcases h.unchanged_answerPeer hopen hcurrent peer with ⟨hsummary, hunexpired⟩
  rw [share_eq_filterMap, share_eq_filterMap, hsummary]
  exact List.filterMap_congr fun id _ => hunexpired own id

/-- What is within its lifetime is on offer to a peer that lacks it. -/
theorem Consistent.mem_share_of_early (h : s.Consistent) (hopen : s.closed = false) (peer : Summary)
    {id : PublicationId} {e : Entry} (hfind : s.table.find? id = some e)
    (hunexpired : e.expired = false) (hearly : ¬ e.arrived.after s.config.window.lifetime ≤ now)
    (hlacks : id ∉ peer.ids) :
    e.publication ∈ (s.answerPeer peer now).session.share peer e.own := by
  have hfound : (s.answerPeer peer now).session.table.find? id = some (e.afterConfirm id peer) := by
    rw [Session.find?_answerPeer hopen, hfind, Option.bind_some, Entry.aged_of_early hearly]
    rfl
  have hanswered : (s.answerPeer peer now).session.Consistent := h.perform (.answerPeer peer now)
  have hactive : e.active = true := by
    cases hactive : e.active with
    | true => rfl
    | false =>
        rw [h.retired id e hfind hactive] at hunexpired
        cases hunexpired
  rw [Entry.afterConfirm_eq] at hfound
  apply mem_share_iff.mpr
  refine ⟨id, ?_, unexpired?_eq_some.mpr ⟨_, hfound, hunexpired, rfl, rfl⟩⟩
  exact Summary.mem_missingFrom.mpr ⟨(hanswered.offered id).mpr ⟨_, hfound, hactive⟩, hlacks⟩

/-- A session that knows nothing but one publication of its own, within its lifetime, answers a peer
that lacks it with this publication alone. -/
theorem Consistent.answer_of_only {w : Window} (h : s.Consistent) (hopen : s.closed = false)
    (hpolicy : s.policy = .lifecycle w) {id : PublicationId} {e : Entry}
    (hfind : s.table.find? id = some e) (honly : ∀ other e', s.table.find? other = some e' → e' = e)
    (hown : e.own = true) (hunexpired : e.expired = false)
    (hearly : ¬ e.arrived.after s.config.window.lifetime ≤ now) (hlacks : id ∉ peer.ids) :
    (s.answerPeer peer now).answer = some [e.publication] := by
  let answered := (s.answerPeer peer now).session
  have hanswered : answered.Consistent := h.perform (.answerPeer peer now)
  have hshared (own : Bool) (p : Publication) (hmem : p ∈ answered.share peer own) :
      e.own = own ∧ p = e.publication := by
    rcases mem_share_iff.mp hmem with ⟨other, -, hshown⟩
    rcases unexpired?_eq_some.mp hshown with ⟨e', hentry, -, rfl, rfl⟩
    -- The entry is what timers and receipts left of the only one there was.
    rw [Session.find?_answerPeer hopen] at hentry
    rcases Option.map_eq_some_iff.mp hentry with ⟨aged, hbind, rfl⟩
    rcases Option.bind_eq_some_iff.mp hbind with ⟨old, hold, haged⟩
    rw [honly other old hold] at haged
    rw [Entry.afterConfirm_eq, Entry.aged_eq_some haged]
    exact ⟨rfl, rfl⟩
  have hours : answered.share peer true = [e.publication] := by
    have hmem := h.mem_share_of_early hopen peer hfind hunexpired hearly hlacks
    rw [hown] at hmem
    apply List.perm_singleton.mp
    have hnodup : (answered.share peer true).Nodup := (hanswered.nodup_share peer true).of_map
    apply (List.perm_ext_iff_of_nodup hnodup (List.nodup_singleton _)).mpr
    intro p
    rw [List.mem_singleton]
    constructor
    · exact fun hp => (hshared true p hp).2
    · rintro rfl
      exact hmem
  have hothers : answered.share peer false = [] := by
    apply List.eq_nil_iff_forall_not_mem.mpr
    intro p hp
    rw [(hshared false p hp).1] at hown
    cases hown
  have hkept : answered.policy = .lifecycle w :=
    (s.settings_perform (.answerPeer peer now)).2.1.trans hpolicy
  have hoffer : answered.offer peer = [e.publication] := by
    rw [offer_eq_reconcile hkept, hours, hothers]
    simp [reconcile, newestFirst]
  rw [answer_answerPeer hopen, hoffer]
  rfl

/-- What is on offer next is the same, less what the peer has learnt. -/
theorem Consistent.share_next (h : s.Consistent) (hopen : s.closed = false)
    (hcurrent : s.Current now) (peer : Summary) (sent : List Publication) (own : Bool) :
    (s.answerPeer (peer.learn sent) now).session.share (peer.learn sent) own =
      (s.share peer own).filter fun p => !(sent.map Publication.id).contains p.id := by
  calc
    (s.answerPeer (peer.learn sent) now).session.share (peer.learn sent) own
        = (s.summary.missingFrom (peer.learn sent)).filterMap (s.unexpired? own) := by
          rw [h.share_answerPeer hopen hcurrent, share_eq_filterMap]
    _ = ((s.summary.missingFrom peer).filter fun id =>
          !(sent.map Publication.id).contains id).filterMap (s.unexpired? own) := by
          rw [Summary.missingFrom_learn]
    _ = ((s.summary.missingFrom peer).filterMap (s.unexpired? own)).filter fun p =>
          !(sent.map Publication.id).contains p.id := by
          rw [List.filterMap_filter, List.filter_filterMap]
          refine List.filterMap_congr fun id _ => ?_
          cases hfind : s.unexpired? own id with
          | none => simp
          | some p => simp [Option.filter, h.id_of_unexpired? hfind]
    _ = (s.share peer own).filter fun p => !(sent.map Publication.id).contains p.id := by
          rw [share_eq_filterMap]

end Session

/-! ## Pages of one sequence -/

theorem perm_newestFirst (ours others : List Publication) :
    (newestFirst ours ++ newestFirst others).Perm (ours ++ others) :=
  (List.mergeSort_perm ours _).append (List.mergeSort_perm others _)

/-- Among publications with different ids, those that are not on the first page are the rest. -/
theorem filter_unsent {sent unsent : List Publication}
    (hnodup : ((sent ++ unsent).map Publication.id).Nodup) :
    (sent ++ unsent).filter (fun p => !(sent.map Publication.id).contains p.id) = unsent := by
  rw [List.map_append, List.nodup_append] at hnodup
  have hsent : sent.filter (fun p => !(sent.map Publication.id).contains p.id) = [] := by
    refine List.filter_eq_nil_iff.mpr fun p hp => ?_
    simpa using ⟨p, hp, rfl⟩
  have hunsent : unsent.filter (fun p => !(sent.map Publication.id).contains p.id) = unsent := by
    refine List.filter_eq_self.mpr fun p hp => ?_
    simp only [Bool.not_eq_true', ← Bool.not_eq_true, List.contains_iff_mem]
    exact fun hmem => hnodup.2.2 p.id hmem p.id (List.mem_map_of_mem hp) rfl
  rw [List.filter_append, hsent, hunsent, List.nil_append]

/-- A page starts with an own publication, so fewer own ones are left after it. -/
theorem length_unsent_lt {ours others : List Publication} (hours : ours ≠ []) (budget : Nat) :
    let reply := page budget (newestFirst ours ++ newestFirst others)
    (ours.filter fun p => !(reply.map Publication.id).contains p.id).length < ours.length := by
  intro reply
  apply List.length_filter_lt_length_iff_exists.mpr
  cases hsorted : newestFirst ours with
  | nil =>
      rcases List.exists_mem_of_ne_nil ours hours with ⟨p, hp⟩
      have hmem := mem_newestFirst.mpr hp
      rw [hsorted] at hmem
      cases hmem
  | cons newest older =>
      refine ⟨newest, mem_newestFirst.mp (hsorted ▸ List.mem_cons_self), ?_⟩
      simp [reply, hsorted, page]

/-- The replies cut up a beginning of all publications, one's own before those of others, that has
every own one; there are no more replies than own publications. -/
structure Exhausts (ours others : List Publication) (replies : List (List Publication)) : Prop where
  rounds : replies.length ≤ ours.length
  start : replies.flatten <+: newestFirst ours ++ newestFirst others
  complete : ∀ p ∈ ours, p ∈ replies.flatten

theorem Exhausts.none (others : List Publication) : Exhausts [] others [] where
  rounds := Nat.le_refl _
  start := List.nil_prefix
  complete := by simp

/-- A page in front: the replies after it are about what it left over. -/
theorem Exhausts.page {ours others : List Publication} {budget : Nat}
    {rest : List (List Publication)} (hnodup : ((ours ++ others).map Publication.id).Nodup)
    (hours : ours ≠ []) :
    let reply := page budget (newestFirst ours ++ newestFirst others)
    let left := fun p : Publication => !(reply.map Publication.id).contains p.id
    Exhausts (ours.filter left) (others.filter left) rest → Exhausts ours others (reply :: rest) := by
  intro reply left h
  have hperm := perm_newestFirst ours others
  rcases page_isPrefix budget (newestFirst ours ++ newestFirst others) with ⟨unsent, hsplit⟩
  have hids : ((reply ++ unsent).map Publication.id).Nodup := by
    rw [hsplit]
    exact (hperm.map Publication.id).nodup_iff.mpr hnodup
  -- What is left, sorted again, is what the page left of the whole sequence.
  have hunsent : newestFirst (ours.filter left) ++ newestFirst (others.filter left) = unsent := by
    rw [newestFirst_filter, newestFirst_filter, ← List.filter_append, ← hsplit]
    exact filter_unsent hids
  have hsent : ∀ p ∈ ours, left p = false → p ∈ reply := by
    intro p hp hid
    have hknown : p.id ∈ reply.map Publication.id := by simpa [left] using hid
    rcases List.mem_map.mp hknown with ⟨q, hq, hsame⟩
    have hmem : p ∈ reply ++ unsent := by
      rw [hsplit]
      exact hperm.mem_iff.mpr (List.mem_append_left others hp)
    rwa [← List.inj_on_of_nodup_map hids (List.mem_append_left unsent hq) hmem hsame]
  refine ⟨?_, ?_, ?_⟩
  · exact Nat.lt_of_le_of_lt h.rounds (length_unsent_lt hours budget)
  · have hrest := h.start
    rw [hunsent] at hrest
    rw [List.flatten_cons, ← hsplit]
    exact (List.prefix_append_right_inj reply).mpr hrest
  · intro p hp
    rw [List.flatten_cons, List.mem_append]
    cases hleft : left p with
    | false => exact Or.inl (hsent p hp hleft)
    | true => exact Or.inr (h.complete p (List.mem_filter.mpr ⟨hp, hleft⟩))

/-- What the replies leave unsent are publications of others. -/
theorem Exhausts.split {ours others : List Publication} {replies : List (List Publication)}
    (h : Exhausts ours others replies) (hnodup : ((ours ++ others).map Publication.id).Nodup) :
    (replies.flatten.map Publication.id).Nodup ∧
      ∃ unsent, reconcile ours others = replies.flatten ++ unsent ∧
        ∀ p ∈ unsent, p ∈ others ∧ p ∉ replies.flatten := by
  by_cases hours : ours = []
  · have hnil : replies = [] := by
      apply List.length_eq_zero_iff.mp
      simpa [hours] using h.rounds
    subst hnil
    exact ⟨List.nodup_nil, [], reconcile_eq_nil_iff.mpr hours, by simp⟩
  · have hperm := perm_newestFirst ours others
    rcases h.start with ⟨unsent, hsplit⟩
    rw [← hsplit] at hperm
    have hids := (hperm.map Publication.id).nodup_iff.mpr hnodup
    rw [List.map_append, List.nodup_append] at hids
    refine ⟨hids.1, unsent, by simp [reconcile, hours, hsplit], fun p hp => ?_⟩
    have hunsent : p ∉ replies.flatten := fun hmem =>
      hids.2.2 p.id (List.mem_map_of_mem hmem) p.id (List.mem_map_of_mem hp) rfl
    rcases List.mem_append.mp (hperm.mem_iff.mp (List.mem_append_right _ hp)) with hown | hother
    · exact absurd (h.complete p hown) hunsent
    · exact ⟨hother, hunsent⟩

/-! ## Courses of answers -/

namespace Session

/-- The answers that a peer gets at `now` if it learns what each of them holds and asks again, until
there is none. -/
inductive Pages (now : Timestamp) : Session → Summary → List (List Publication) → Prop where
  | done {s : Session} {peer : Summary} :
      (s.answerPeer peer now).answer = none → Pages now s peer []
  | next {s : Session} {peer : Summary} {reply : List Publication}
      {rest : List (List Publication)} :
      (s.answerPeer peer now).answer = some reply →
      Pages now (s.answerPeer peer now).session (peer.learn reply) rest →
      Pages now s peer (reply :: rest)

variable {s : Session} {peer : Summary} {now : Timestamp} {w : Window}

theorem Pages.unique {replies others : List (List Publication)} (h : Pages now s peer replies)
    (h' : Pages now s peer others) : replies = others := by
  induction h generalizing others with
  | done hnone =>
      cases h' with
      | done => rfl
      | next hsome _ =>
          rw [hnone] at hsome
          cases hsome
  | next hsome _ ih =>
      cases h' with
      | done hnone =>
          rw [hsome] at hnone
          cases hnone
      | next hsome' hrest =>
          rw [hsome] at hsome'
          cases hsome'
          rw [ih hrest]

/-- If all that is sent exceeds the budget, every page holds one publication. -/
theorem Pages.eq_map_singleton {replies : List (List Publication)} (h : Pages now s peer replies)
    (hlarge : ∀ p ∈ replies.flatten, s.config.budget.toNat < p.size) :
    replies = replies.flatten.map fun p => [p] := by
  induction h with
  | done => rfl
  | @next s peer reply rest hanswer hrest ih =>
      rw [List.flatten_cons, List.forall_mem_append] at hlarge
      obtain ⟨hreply, hlater⟩ := hlarge
      have hconfig : (s.answerPeer peer now).session.config = s.config :=
        (s.settings_perform (.answerPeer peer now)).1
      have hone : ∃ p, reply = [p] := by
        have hopen : s.closed = false := by
          cases hclosed : s.closed with
          | false => rfl
          | true => simp [answerPeer, hclosed] at hanswer
        rw [answer_answerPeer hopen] at hanswer
        cases hoffer : (s.answerPeer peer now).session.offer peer with
        | nil => simp [hoffer] at hanswer
        | cons p others =>
            rw [hoffer] at hanswer
            have hpage : page s.config.budget.toNat (p :: others) = reply := Option.some.inj hanswer
            refine ⟨p, ?_⟩
            rw [← hpage]
            exact page_of_oversize (hreply p (hpage ▸ List.mem_cons_self)) others
      obtain ⟨p, rfl⟩ := hone
      rw [hconfig] at ih
      rw [List.flatten_cons, List.map_append, ← ih hlater]
      rfl

/-- By induction on the own candidates: there is no answer without one, and every answer holds one. -/
theorem Consistent.exists_pages (h : s.Consistent) (hopen : s.closed = false)
    (hpolicy : s.policy = .lifecycle w) (peer : Summary) (now : Timestamp) :
    ∃ replies, Pages now s peer replies ∧
      Exhausts ((s.answerPeer peer now).session.share peer true)
        ((s.answerPeer peer now).session.share peer false) replies := by
  induction hcount : ((s.answerPeer peer now).session.share peer true).length using
    Nat.strong_induction_on generalizing s peer with
  | _ count ih =>
      let t := (s.answerPeer peer now).session
      have ht : t.Consistent := h.perform (.answerPeer peer now)
      have hkeep : Call.answerPeer peer now ≠ .close := by simp
      have htopen : t.closed = false := open_perform hopen hkeep
      have htpolicy : t.policy = .lifecycle w :=
        (s.settings_perform (.answerPeer peer now)).2.1.trans hpolicy
      have hanswer := answer_answerPeer hopen peer now
      rw [offer_eq_reconcile htpolicy] at hanswer
      -- Without an own candidate the answers end, whatever there is of others.
      by_cases hours : t.share peer true = []
      · have hnone : (s.answerPeer peer now).answer = none := by
          rw [hanswer, reconcile_eq_nil_iff.mpr hours]
          rfl
        refine ⟨[], Pages.done hnone, ?_⟩
        rw [hours]
        exact Exhausts.none _
      · let reply := page s.config.budget.toNat
          (newestFirst (t.share peer true) ++ newestFirst (t.share peer false))
        have hsome : (s.answerPeer peer now).answer = some reply := by
          have hne : reconcile (t.share peer true) (t.share peer false) ≠ [] := fun hnil =>
            hours (reconcile_eq_nil_iff.mp hnil)
          rw [hanswer, if_neg (by simpa using hne)]
          simp [reconcile, hours, reply, t]
        have hnext := ht.share_next htopen (current_answerPeer hopen peer now) peer reply
        have hfewer : ((t.answerPeer (peer.learn reply) now).session.share (peer.learn reply)
            true).length < count := by
          rw [hnext, ← hcount]
          exact length_unsent_lt hours _
        rcases ih _ hfewer ht htopen htpolicy _ rfl with ⟨rest, hrest, hexhausts⟩
        rw [hnext, hnext] at hexhausts
        exact ⟨reply :: rest, Pages.next hsome hrest,
          Exhausts.page (ht.nodup_shares peer) hours hexhausts⟩

/-- Answering page by page loses and repeats no own publication. Whatever was done with a session,
the answers at one time come to an end after at most as many as there are own candidates. Together
they are the beginning of the whole offer, own publications newest first before the others newest
first, with every own one in it and no id twice; what is not sent is of others. -/
theorem pages_exhaust_own (config : SessionConfig) (w : Window) (s : Session) (calls : List Call)
    (peer : Summary) (now : Timestamp) (hopen : openWith config (.lifecycle w) = .ok s)
    (hlive : (s.after calls).closed = false) :
    let answered := ((s.after calls).answerPeer peer now).session
    let ours := answered.share peer true
    let others := answered.share peer false
    let offer := answered.offer peer
    offer = (if ours = [] then [] else newestFirst ours ++ newestFirst others) ∧
      ∃ replies, Pages now (s.after calls) peer replies ∧
        (∀ course, Pages now (s.after calls) peer course → course = replies) ∧
        replies.length ≤ ours.length ∧
        (∀ p ∈ ours, p ∈ replies.flatten) ∧
        (replies.flatten.map Publication.id).Nodup ∧
        ∃ unsent, offer = replies.flatten ++ unsent ∧
          ∀ p ∈ unsent, p ∈ others ∧ p ∉ replies.flatten := by
  intro answered ours others offer
  have hconsistent := Consistent.of_openWith hopen calls
  have hpolicy : (s.after calls).policy = .lifecycle w := by
    rcases openWith_eq_ok hopen with ⟨-, rfl⟩
    exact (settings_after _ calls).2
  have hanswered : answered.Consistent := hconsistent.perform (.answerPeer peer now)
  have hoffer : offer = reconcile ours others :=
    offer_eq_reconcile (((s.after calls).settings_perform (.answerPeer peer now)).2.1.trans hpolicy)
      peer
  rcases hconsistent.exists_pages hlive hpolicy peer now with ⟨replies, hpages, hexhausts⟩
  rcases hexhausts.split (hanswered.nodup_shares peer) with ⟨hnodup, unsent, hsplit, hleft⟩
  refine ⟨by simpa [reconcile] using hoffer, replies, hpages, ?_, hexhausts.rounds,
    hexhausts.complete, hnodup, unsent, hoffer.trans hsplit, hleft⟩
  intro course hcourse
  exact hcourse.unique hpages

/-- Two own publications that each exceed the budget, beside one of another session: two pages, the
newer one first, and the third publication is on neither. -/
theorem pages_exhaust_own_oversize :
    let config : SessionConfig := { budget := 1 }
    let s := fresh config (.lifecycle config.window)
    let p := Publication.stamped .root .zero [7]
    let q := Publication.stamped .root ⟨5⟩ [8]
    let r := Publication.stamped .root ⟨9⟩ [9]
    let calls : List Call :=
      [.publish .root [7] .zero none, .publish .root [8] ⟨5⟩ none, .receive [r] ⟨9⟩]
    let board := s.after calls
    openDefault config = .ok s ∧ board.closed = false ∧
      (board.answerPeer .empty ⟨9⟩).session.offer .empty = [q, p, r] ∧
      Pages ⟨9⟩ board .empty [[q], [p]] ∧
      ∀ course, Pages ⟨9⟩ board .empty course → course = [[q], [p]] := by
  intro config s p q r calls board
  have hopen : openWith config (.lifecycle config.window) = .ok s := rfl
  have hlive : board.closed = false := open_after rfl (by simp [calls])
  have hconsistent : board.Consistent := Consistent.of_openWith hopen calls
  have hboard : (∀ row ∈ board.table.rows, row.2.aged board.config.window ⟨9⟩ = some row.2) ∧
      board.share .empty true = [q, p] ∧ board.share .empty false = [r] := by
    decide +kernel
  obtain ⟨hrows, howned, hforeign⟩ := hboard
  -- No timer goes off at this time, so the answer leaves what there is to share as it is.
  have hcurrent : board.Current ⟨9⟩ := fun id e hfind =>
    hrows (id, e) (Table.mem_rows_iff.mpr hfind)
  have hours := (hconsistent.share_answerPeer hlive hcurrent .empty true).trans howned
  have hothers := (hconsistent.share_answerPeer hlive hcurrent .empty false).trans hforeign
  obtain ⟨hoffer, replies, hpages, hunique, hrounds, hcomplete, -, unsent, hsplit, -⟩ :=
    pages_exhaust_own config config.window s calls .empty ⟨9⟩ hopen hlive
  rw [hours] at hoffer hrounds hcomplete
  rw [hothers] at hoffer
  have hsequence : (board.answerPeer .empty ⟨9⟩).session.offer .empty = [q, p, r] := by
    have hnewest : newestFirst [q, p] = [q, p] := List.mergeSort_of_pairwise (by decide)
    have hlast : newestFirst [r] = [r] := List.mergeSort_of_pairwise (by decide)
    rw [hoffer, if_neg (List.cons_ne_nil q [p]), hnewest, hlast]
    rfl
  have hsent : [q, p, r] = replies.flatten ++ unsent := hsequence.symm.trans hsplit
  -- Each of the three exceeds the budget, so a page holds one, and there are two pages at most.
  have hsingle : replies = replies.flatten.map fun p => [p] := by
    have hlarge : ∀ other ∈ [q, p, r], 1 < other.size := by decide +kernel
    apply hpages.eq_map_singleton
    intro other hmem
    rw [(settings_after s calls).1]
    apply hlarge
    rw [hsent]
    exact List.mem_append_left unsent hmem
  have hpair : replies.flatten = [q, p] := by
    have hcount : replies.flatten.length ≤ 2 := by
      rw [← List.length_map (f := fun p => [p]), ← hsingle]
      exact hrounds
    have hlast := hcomplete p (List.mem_cons_of_mem q (List.mem_singleton_self p))
    have hother : p ≠ q := by decide
    have htaken := List.prefix_iff_eq_take.mp ⟨unsent, hsent.symm⟩
    generalize replies.flatten.length = count at htaken hcount
    rw [htaken] at hlast ⊢
    match count, hcount, hlast with
    | 0, _, hlast => cases hlast
    | 1, _, hlast => exact absurd (List.mem_singleton.mp hlast) hother
    | 2, _, _ => rfl
  rw [hpair] at hsingle
  subst hsingle
  exact ⟨rfl, hlive, hsequence, hpages, hunique⟩

end Session

end Bulletin
