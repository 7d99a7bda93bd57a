import Bulletin.Pair
import Bulletin.Proofs.Delivery
import Bulletin.Proofs.Invariant
import Bulletin.Proofs.Offer
import Mathlib.Data.List.Perm.Subperm

/-!
# Transfer — one session answers, the other takes the answer in

The timers of a session run from the arrival of a publication, and freshness is judged by its stamp.
On a common clock the two agree well enough for a transfer to make progress:

* `Session.Timely` — stamp, arrival and clock are in order, and nothing expired early;
* `Session.unknownTo` — the own, unexpired publications of a session that another one lacks;
* `Session.Timely.current_of_shared` — what one session still has to offer, the other has not let go;
* `Session.Timely.own_candidate_iff` — the own candidates of an answer are exactly those;
* `Session.Moved` and `Session.Timely.transfer` — a transfer accepts something when there is any, and
  leaves at least one less.
-/

namespace Bulletin

/-! ## Entries on a common clock -/

/-- The publication is one of `made`, was stamped before it came, and has not expired early. -/
structure Entry.Timely (w : Window) (made : List Publication) (now : Timestamp) (e : Entry) :
    Prop where
  mem : e.publication ∈ made
  stamped : e.publication.timestamp ≤ e.arrived
  arrived : e.arrived ≤ now
  due : e.expired = true → e.arrived.after w.lifetime ≤ now

namespace Entry.Timely

variable {w : Window} {made : List Publication} {now : Timestamp} {e e' : Entry}

theorem settled (h : e.Timely w made now) : e.settled.Timely w made now :=
  ⟨h.mem, h.stamped, h.arrived, h.due⟩

theorem aged (h : e.Timely w made now) (haged : e.aged w now = some e') :
    e'.Timely w made now := by
  have hdue : e'.expired = true → e.arrived.after w.lifetime ≤ now := by
    intro hexpired
    rcases (expired_of_aged haged).mp hexpired with hbefore | hnow
    · exact h.due hbefore
    · exact hnow
  rw [aged_eq_some haged] at hdue ⊢
  exact ⟨h.mem, h.stamped, h.arrived, hdue⟩

theorem arrival {p : Publication} (hmem : p ∈ made) (hstamp : p.timestamp ≤ now) (own : Bool)
    (receipt : Option String) : (Entry.arrival p own now receipt).Timely w made now :=
  ⟨hmem, hstamp, Nat.le_refl _, by simp [Entry.arrival]⟩

theorem later {next : Timestamp} (h : e.Timely w made now) (hnext : now ≤ next) :
    e.Timely w made next :=
  ⟨h.mem, h.stamped, Nat.le_trans h.arrived hnext, fun hexpired =>
    Nat.le_trans (h.due hexpired) hnext⟩

end Entry.Timely

/-! ## Sessions on a common clock -/

namespace Session

/-- An open session with the lifecycle policy of a window, whose entries are timely. -/
structure Timely (w : Window) (made : List Publication) (now : Timestamp) (s : Session) : Prop where
  consistent : s.Consistent
  isOpen : s.closed = false
  window : s.config.window = w
  policy : s.policy = .lifecycle w
  entries : ∀ id e, s.table.find? id = some e → e.Timely w made now

/-- There is an own publication under the id, and its lifetime is not over. -/
def OwnsCurrent (s : Session) (now : Timestamp) (id : PublicationId) : Prop :=
  ∃ e, s.table.find? id = some e ∧ e.own = true ∧ now < e.arrived.after s.config.window.lifetime

/-- The ids of the own publications whose lifetime is not over and that another session lacks. -/
def unknownTo (source target : Session) (now : Timestamp) : List PublicationId :=
  (source.idsWhere fun e =>
    e.own && decide (now < e.arrived.after source.config.window.lifetime)).filter fun id =>
      !target.table.contains id

theorem mem_unknownTo_iff {source target : Session} {now : Timestamp} {id : PublicationId} :
    id ∈ source.unknownTo target now ↔
      source.OwnsCurrent now id ∧ target.table.find? id = none := by
  simp [unknownTo, mem_idsWhere_iff, OwnsCurrent, Table.contains_eq_false_iff]

theorem contains_of_ownsCurrent {source target : Session} {now : Timestamp} {id : PublicationId}
    (hknown : (source.unknownTo target now).length = 0) (hown : source.OwnsCurrent now id) :
    target.table.contains id = true := by
  cases hfind : target.table.contains id with
  | true => rfl
  | false =>
      have hmem : id ∈ source.unknownTo target now :=
        mem_unknownTo_iff.mpr ⟨hown, Table.contains_eq_false_iff.mp hfind⟩
      rw [List.length_eq_zero_iff.mp hknown] at hmem
      cases hmem

theorem nodup_unknownTo (source target : Session) (now : Timestamp) :
    (source.unknownTo target now).Nodup := by
  have hkeys := source.table.nodup_keys_byId
  exact List.filter_sublist.nodup ((List.filter_sublist.map Prod.fst).nodup hkeys)

theorem length_unknownTo_le (source target : Session) (now : Timestamp) :
    (source.unknownTo target now).length ≤ source.table.size := by
  refine Nat.le_trans (List.length_filter_le _ _) ?_
  rw [idsWhere, List.length_map]
  refine Nat.le_trans (List.length_filter_le _ _) ?_
  exact Nat.le_of_eq (List.length_mergeSort _)

namespace Timely

variable {w : Window} {made : List Publication} {now : Timestamp} {s : Session}

theorem perform (h : s.Timely w made now) (call : Call)
    (htime : ∀ t, call.time? = some t → now = t) (hclose : call ≠ .close)
    (hpublished : ∀ name payload t receipt, call = .publish name payload t receipt →
      Publication.stamped name t payload ∈ made)
    (hreceived : ∀ publications t, call = .receive publications t →
      ∀ p ∈ publications, p ∈ made ∧ p.timestamp ≤ now) :
    (s.perform call).session.Timely w made now := by
  rcases s.settings_perform call with ⟨hconfig, hpolicy, hclosed⟩
  refine ⟨h.consistent.perform call, ?_, by rw [hconfig, h.window], hpolicy.trans h.policy, ?_⟩
  · rw [← Bool.not_eq_true, hclosed, h.isOpen]
    simp [hclose]
  · refine entries_perform h.entries ?_ ?_ ?_ ?_
    · intro t hcall id e e' htimely haged
      rw [h.window, ← htime t hcall] at haged
      exact htimely.aged haged
    · intro id e htimely
      exact htimely.settled
    · intro name payload t receipt hcall _
      have hmem := hpublished name payload t receipt hcall
      have hstamp : (Publication.stamped name t payload).timestamp = t :=
        Publication.timestamp_of_timestamp? (Publication.timestamp?_stamped name t payload)
      subst hcall
      cases htime t rfl
      exact .arrival hmem (Nat.le_of_eq (congrArg Timestamp.toNat hstamp)) true receipt
    · intro publications t p hcall _ hsent _
      rcases hreceived publications t hcall p hsent with ⟨hmem, hstamp⟩
      subst hcall
      cases htime t rfl
      exact .arrival hmem hstamp false none

theorem later {next : Timestamp} (h : s.Timely w made now) (hnext : now ≤ next) :
    s.Timely w made next :=
  ⟨h.consistent, h.isOpen, h.window, h.policy, fun id e hfind => (h.entries id e hfind).later hnext⟩

/-- Within its lifetime an entry is unexpired and on offer. -/
theorem offered_of_current (h : s.Timely w made now) {id : PublicationId} {e : Entry}
    (hfind : s.table.find? id = some e) (hcurrent : now < e.arrived.after w.lifetime) :
    e.expired = false ∧ id ∈ s.summary.ids := by
  have hunexpired : e.expired = false := by
    cases hexpired : e.expired with
    | false => rfl
    | true => exact absurd ((h.entries id e hfind).due hexpired) (Nat.not_le_of_lt hcurrent)
  refine ⟨hunexpired, (h.consistent.offered id).mpr ⟨e, hfind, ?_⟩⟩
  cases hactive : e.active with
  | true => rfl
  | false =>
      rw [h.consistent.retired id e hfind hactive] at hunexpired
      cases hunexpired

/-- Within its lifetime no call at the time of the clock removes an entry. -/
theorem kept_of_current (h : s.Timely w made now) (call : Call)
    (htime : ∀ t, call.time? = some t → now = t) {id : PublicationId} {e : Entry}
    (hfind : s.table.find? id = some e) (hcurrent : now < e.arrived.after w.lifetime) :
    ∃ e', (s.perform call).session.table.find? id = some e' ∧ e'.own = e.own ∧
      e'.arrived = e.arrived := by
  rcases kept_or_forgotten hfind call with ⟨e', hkept, -, hown, harrived⟩ | ⟨t, hcall, hdue, -⟩
  · exact ⟨e', hkept, hown, harrived⟩
  · rw [h.window, ← htime t hcall] at hdue
    have hfirst : e.arrived.after w.lifetime ≤ e.arrived.after w.lifetime.double :=
      Timestamp.after_mono (Nat.le_refl _) w.lifetime_le_double
    exact absurd (Nat.le_trans hfirst hdue) (Nat.not_le_of_lt hcurrent)

/-- A call at the time of the clock that publishes nothing leaves the own, unexpired publications
as they are. -/
theorem ownsCurrent_perform (h : s.Timely w made now) (call : Call)
    (htime : ∀ t, call.time? = some t → now = t)
    (hsilent : ∀ name payload t receipt, call ≠ .publish name payload t receipt)
    (id : PublicationId) :
    (s.perform call).session.OwnsCurrent now id ↔ s.OwnsCurrent now id := by
  have hconfig := (s.settings_perform call).1
  constructor
  · rintro ⟨e', hfind', hown', hcurrent⟩
    have hback : e'.own = true →
        ∃ e, s.table.find? id = some e ∧ e.own = true ∧ e.arrived = e'.arrived := by
      refine entries_perform (Q := fun id e' => e'.own = true →
        ∃ e, s.table.find? id = some e ∧ e.own = true ∧ e.arrived = e'.arrived)
        ?_ ?_ ?_ ?_ ?_ id e' hfind'
      · intro id e hfind hown
        exact ⟨e, hfind, hown, rfl⟩
      · intro t _ id e aged hold haged hown
        rw [Entry.aged_eq_some haged] at hown ⊢
        exact hold hown
      · intro id e hold hown
        exact hold hown
      · intro name payload t receipt hcall
        exact absurd hcall (hsilent name payload t receipt)
      · intro publications t p _ _ _ _ hown
        cases hown
    rcases hback hown' with ⟨e, hfind, hown, harrived⟩
    rw [hconfig, ← harrived] at hcurrent
    exact ⟨e, hfind, hown, hcurrent⟩
  · rintro ⟨e, hfind, hown, hcurrent⟩
    rcases h.kept_of_current call htime hfind (h.window ▸ hcurrent) with ⟨e', hkept, hsame, harrived⟩
    refine ⟨e', hkept, hsame.trans hown, ?_⟩
    rw [hconfig, harrived]
    exact hcurrent

end Timely

/-! ## The answer -/

namespace Timely

variable {w : Window} {made : List Publication} {now : Timestamp} {source target : Session}

theorem answerPeer (h : source.Timely w made now) (peer : Summary) :
    (source.answerPeer peer now).session.Timely w made now :=
  h.perform (.answerPeer peer now) (by simp [Call.time?]) (by simp) (by simp) (by simp)

theorem ownsCurrent_answerPeer (h : source.Timely w made now) (peer : Summary) (id : PublicationId) :
    (source.answerPeer peer now).session.OwnsCurrent now id ↔ source.OwnsCurrent now id :=
  h.ownsCurrent_perform (.answerPeer peer now) (by simp [Call.time?]) (by simp) id

/-- What one session still has to offer, the other has not let go: a publication comes to others
after it was made. -/
theorem current_of_shared (hsource : source.Timely w made now) (htarget : target.Timely w made now)
    (hdistinct : Publication.NoCollision made) {id : PublicationId} {e : Entry}
    (hown : source.OwnsCurrent now id) (hfind : target.table.find? id = some e) :
    now < e.arrived.after w.lifetime := by
  rcases hown with ⟨ours, hours, hisOwn, hcurrent⟩
  rw [hsource.window] at hcurrent
  have hmine := hsource.entries id ours hours
  have htheirs := htarget.entries id e hfind
  have hsame : ours.publication = e.publication := by
    refine hdistinct _ hmine.mem _ htheirs.mem ?_
    rw [hsource.consistent.keyed id ours hours, htarget.consistent.keyed id e hfind]
  have hstamp : ours.publication.timestamp = ours.arrived :=
    Publication.timestamp_of_timestamp? (hsource.consistent.stamped id ours hours hisOwn)
  -- The stamp is the time of making here, and no later than the arrival there.
  have harrived : ours.arrived ≤ e.arrived := by
    rw [← hstamp, hsame]
    exact htheirs.stamped
  exact Nat.lt_of_lt_of_le hcurrent (Timestamp.after_mono harrived (Nat.le_refl _))

/-- After an answer, what has not expired is within its lifetime. -/
theorem current_of_unexpired (h : source.Timely w made now) {peer : Summary} {id : PublicationId}
    {e : Entry} (hfind : (source.answerPeer peer now).session.table.find? id = some e)
    (hunexpired : e.expired = false) : now < e.arrived.after w.lifetime := by
  have hentry := source.find?_perform (.answerPeer peer now) id
  have hfind' : source.entryAfter id (.answerPeer peer now) = some e := hentry.symm.trans hfind
  simp only [entryAfter, h.isOpen, Bool.false_eq_true, if_false] at hfind'
  rcases Option.map_eq_some_iff.mp hfind' with ⟨aged, hbind, rfl⟩
  rcases Option.bind_eq_some_iff.mp hbind with ⟨old, -, haged⟩
  rw [h.window] at haged
  rw [Entry.afterConfirm_eq] at hunexpired ⊢
  have harrived : aged.arrived = old.arrived := by rw [Entry.aged_eq_some haged]
  refine Nat.lt_of_not_le fun hdue => ?_
  have hover : aged.expired = true :=
    (Entry.expired_of_aged haged).mpr (Or.inr (harrived ▸ hdue))
  rw [hunexpired] at hover
  cases hover

/-- The own candidates of an answer are the own, unexpired publications that the peer lacks, however
late the peer's summary is. -/
theorem own_candidate_iff (hsource : source.Timely w made now) (htarget : target.Timely w made now)
    (hdistinct : Publication.NoCollision made) {id : PublicationId} :
    (∃ e ∈ (source.answerPeer target.summary now).session.candidates target.summary,
        e.own = true ∧ e.publication.id = id) ↔
      id ∈ source.unknownTo target now := by
  have hanswered := hsource.answerPeer target.summary
  have hkept := hsource.ownsCurrent_answerPeer target.summary id
  rw [mem_unknownTo_iff, ← hkept]
  constructor
  · rintro ⟨e, hcandidate, hown, rfl⟩
    rcases mem_candidates_iff.mp hcandidate with ⟨key, -, hlacking, hfind, hunexpired⟩
    have hkey : e.publication.id = key := hanswered.consistent.keyed key e hfind
    rw [hkey] at hkept ⊢
    have hcurrent := hsource.current_of_unexpired hfind hunexpired
    have howns : (source.answerPeer target.summary now).session.OwnsCurrent now key :=
      ⟨e, hfind, hown, by rw [hanswered.window]; exact hcurrent⟩
    refine ⟨howns, ?_⟩
    -- Anything the peer still stores under this id would be in its summary.
    cases htheirs : target.table.find? key with
    | none => rfl
    | some theirs =>
        have hshared := hsource.current_of_shared htarget hdistinct (hkept.mp howns) htheirs
        exact absurd (htarget.offered_of_current htheirs hshared).2 hlacking
  · rintro ⟨⟨e, hfind, hown, hcurrent⟩, hlacking⟩
    rw [hanswered.window] at hcurrent
    rcases hanswered.offered_of_current hfind hcurrent with ⟨hunexpired, hoffered⟩
    refine ⟨e, mem_candidates_iff.mpr ⟨id, hoffered, ?_, hfind, hunexpired⟩, hown,
      hanswered.consistent.keyed id e hfind⟩
    intro hmem
    rcases (htarget.consistent.offered id).mp hmem with ⟨theirs, htheirs, -⟩
    rw [hlacking] at htheirs
    cases htheirs

theorem unknownTo_eq_nil_of_no_answer (hsource : source.Timely w made now)
    (htarget : target.Timely w made now) (hdistinct : Publication.NoCollision made)
    (hanswer : (source.answerPeer target.summary now).answer = none) :
    source.unknownTo target now = [] := by
  have hpolicy := (hsource.answerPeer target.summary).policy
  refine List.eq_nil_iff_forall_not_mem.mpr fun id hmem => ?_
  rcases (hsource.own_candidate_iff htarget hdistinct).mpr hmem with ⟨e, hcandidate, hown, -⟩
  rcases answer_of_own_candidate hsource.isOpen hpolicy hcandidate hown with ⟨_, _, hsome, -⟩
  rw [hanswer] at hsome
  cases hsome

/-- An answer starts with a publication that the peer lacks and finds fresh. -/
theorem answer_starts (hsource : source.Timely w made now) (htarget : target.Timely w made now)
    (hdistinct : Publication.NoCollision made) (hskew : 1 ≤ w.skew.micros)
    {sent : List Publication}
    (hanswer : (source.answerPeer target.summary now).answer = some sent) :
    ∃ first rest, sent = first :: rest ∧ first.id ∈ source.unknownTo target now ∧
      target.policy.valid first now = true := by
  have hanswered := hsource.answerPeer target.summary
  rw [answer_answerPeer hsource.isOpen] at hanswer
  cases hoffer : (source.answerPeer target.summary now).session.offer target.summary with
  | nil => simp [hoffer] at hanswer
  | cons first rest =>
      have hsent : sent = first :: fill source.config.budget.toNat first.size rest := by
        simpa [hoffer, page, eq_comm] using hanswer
      rcases offer_head hanswered.policy hoffer with ⟨e, hcandidate, hown, rfl⟩
      refine ⟨_, _, hsent,
        (hsource.own_candidate_iff htarget hdistinct).mp ⟨e, hcandidate, hown, rfl⟩, ?_⟩
      rcases mem_candidates_iff.mp hcandidate with ⟨id, -, -, hfind, hunexpired⟩
      have hstamp : e.publication.timestamp = e.arrived :=
        Publication.timestamp_of_timestamp? (hanswered.consistent.stamped id e hfind hown)
      have hsoon : now.toNat < e.arrived.toNat + w.lifetime.micros :=
        Timestamp.lt_add_of_lt_after (hsource.current_of_unexpired hfind hunexpired)
      have hpast : e.arrived.toNat ≤ now.toNat := (hanswered.entries id e hfind).arrived
      rw [htarget.policy]
      refine Window.fresh_iff.mpr ?_
      rw [hstamp]
      omega

theorem made_of_mem_answer (hsource : source.Timely w made now) {peer : Summary}
    {sent : List Publication} (hanswer : (source.answerPeer peer now).answer = some sent) :
    ∀ p ∈ sent, p ∈ made ∧ p.timestamp ≤ now := by
  have hanswered := hsource.answerPeer peer
  intro p hp
  have hoffered := (mem_offer_of_answer hanswer hp).2
  rcases candidate_of_mem_offer hanswered.policy hoffered with ⟨e, hcandidate, rfl⟩
  rcases mem_candidates_iff.mp hcandidate with ⟨id, -, -, hfind, -⟩
  have htimely := hanswered.entries id e hfind
  exact ⟨htimely.mem, Nat.le_trans htimely.stamped htimely.arrived⟩

end Timely

end Session

/-! ## The transfer -/

theorem ReceiveReport.accepted_foldl (verdicts : List Verdict) (r : ReceiveReport) :
    (verdicts.foldl count r).accepted = r.accepted + verdicts.countP Verdict.stores := by
  induction verdicts generalizing r with
  | nil => rfl
  | cons verdict rest ih =>
      rw [List.foldl_cons, ih, List.countP_cons]
      cases verdict with
      | delivered =>
          simp only [count, accepted, Verdict.stores, if_true]
          omega
      | unclaimed =>
          simp only [count, accepted, Verdict.stores, if_true]
          omega
      | known => rfl
      | refused => rfl

namespace Session

/-- What a transfer of `count` publications at `now` does to the two sessions. -/
structure Moved (w : Window) (made : List Publication) (now : Timestamp) (source target : Session)
    (count : Nat) (source' target' : Session) : Prop where
  answering : source'.Timely w made now
  receiving : target'.Timely w made now
  sourceOwns : ∀ id, source'.OwnsCurrent now id ↔ source.OwnsCurrent now id
  targetOwns : ∀ id, target'.OwnsCurrent now id ↔ target.OwnsCurrent now id
  progress : 0 < count ↔ 0 < (source.unknownTo target now).length
  fewer : (source'.unknownTo target' now).length ≤ (source.unknownTo target now).length - 1
  back : (target'.unknownTo source' now).length = (target.unknownTo source now).length

variable {w : Window} {made : List Publication} {now : Timestamp}
variable {source target source' target' : Session}

theorem length_unknownTo_congr
    (h : ∀ id, id ∈ source'.unknownTo target' now ↔ id ∈ source.unknownTo target now) :
    (source'.unknownTo target' now).length = (source.unknownTo target now).length := by
  have hperm := (List.perm_ext_iff_of_nodup (nodup_unknownTo source' target' now)
    (nodup_unknownTo source target now)).mpr h
  exact hperm.length_eq

theorem length_unknownTo_lt {id : PublicationId}
    (hsubset : ∀ other, other ∈ source'.unknownTo target' now → other ∈ source.unknownTo target now)
    (hmem : id ∈ source.unknownTo target now) (hgone : id ∉ source'.unknownTo target' now) :
    (source'.unknownTo target' now).length ≤ (source.unknownTo target now).length - 1 := by
  have herased : source'.unknownTo target' now ⊆ (source.unknownTo target now).erase id := by
    intro other hother
    have hne : other ≠ id := fun hsame => hgone (hsame ▸ hother)
    exact (List.mem_erase_of_ne hne).mpr (hsubset other hother)
  have hlength := (List.Nodup.subperm (nodup_unknownTo source' target' now) herased).length_le
  rwa [List.length_erase_of_mem hmem] at hlength

namespace Timely

/-- An answer does not change what the answering session lacks of the other. -/
theorem mem_unknownTo_back (hsource : source.Timely w made now) (htarget : target.Timely w made now)
    (hdistinct : Publication.NoCollision made)
    (howns : ∀ id, target'.OwnsCurrent now id ↔ target.OwnsCurrent now id) (id : PublicationId) :
    id ∈ target'.unknownTo (source.answerPeer target.summary now).session now ↔
      id ∈ target.unknownTo source now := by
  rw [mem_unknownTo_iff, mem_unknownTo_iff, howns id]
  refine and_congr_right fun hown => ?_
  have hentry : (source.answerPeer target.summary now).session.table.find? id =
      source.entryAfter id (.answerPeer target.summary now) :=
    source.find?_perform (.answerPeer target.summary now) id
  cases hfind : source.table.find? id with
  | none => simp [hentry, entryAfter, hfind]
  | some e =>
      -- The timers of the answer cannot forget it while the other side has it to offer.
      have hcurrent := htarget.current_of_shared hsource hdistinct hown hfind
      rcases hsource.kept_of_current (.answerPeer target.summary now) (by simp [Call.time?]) hfind
        hcurrent with ⟨e', hkept, -⟩
      have hstill : (source.answerPeer target.summary now).session.table.find? id = some e' := hkept
      simp [hstill]

theorem moved_of_no_answer (hsource : source.Timely w made now) (htarget : target.Timely w made now)
    (hdistinct : Publication.NoCollision made)
    (hanswer : (source.answerPeer target.summary now).answer = none) :
    Moved w made now source target 0 (source.answerPeer target.summary now).session target := by
  have hnil := hsource.unknownTo_eq_nil_of_no_answer htarget hdistinct hanswer
  have hkept := hsource.ownsCurrent_answerPeer target.summary
  have hsame : ∀ id, id ∈ (source.answerPeer target.summary now).session.unknownTo target now ↔
      id ∈ source.unknownTo target now := by
    intro id
    rw [mem_unknownTo_iff, mem_unknownTo_iff, hkept id]
  refine ⟨hsource.answerPeer target.summary, htarget, hkept, fun _ => Iff.rfl, by simp [hnil], ?_, ?_⟩
  · rw [length_unknownTo_congr hsame, hnil]
    exact Nat.zero_le _
  · exact length_unknownTo_congr (hsource.mem_unknownTo_back htarget hdistinct fun _ => Iff.rfl)

/-- The first publication of an answer is accepted, and so no longer unknown. -/
theorem moved_of_answer (hsource : source.Timely w made now) (htarget : target.Timely w made now)
    (hdistinct : Publication.NoCollision made) (hskew : 1 ≤ w.skew.micros)
    {sent : List Publication}
    (hanswer : (source.answerPeer target.summary now).answer = some sent) :
    Moved w made now source target
      (ReceiveReport.ofVerdicts (target.receiveEach sent now).answer).accepted
      (source.answerPeer target.summary now).session (target.receive sent now).session := by
  rcases hsource.answer_starts htarget hdistinct hskew hanswer with
    ⟨first, rest, rfl, hunknown, hvalid⟩
  have hnew : target.table.find? first.id = none := (mem_unknownTo_iff.mp hunknown).2
  have hkept := hsource.ownsCurrent_answerPeer target.summary
  have howns : ∀ id, (target.receive (first :: rest) now).session.OwnsCurrent now id ↔
      target.OwnsCurrent now id :=
    htarget.ownsCurrent_perform (.receive (first :: rest) now) (by simp [Call.time?]) (by simp)
  have hreceived : (target.receive (first :: rest) now).session.Timely w made now := by
    refine htarget.perform (.receive (first :: rest) now) (by simp [Call.time?]) (by simp) (by simp) ?_
    intro publications t hcall
    cases hcall
    exact hsource.made_of_mem_answer hanswer
  have hfind : ∀ id, (target.receive (first :: rest) now).session.table.find? id =
      (target.table.find? id).or
        ((target.incoming (first :: rest) now id).map fun p => .arrival p false now none) := by
    intro id
    rw [session_receive htarget.isOpen]
    exact target.find?_receiveEach (first :: rest) now id
  have hcount : 0 < (ReceiveReport.ofVerdicts
      (target.receiveEach (first :: rest) now).answer).accepted := by
    have hstores := stores_receiveOne.mpr ⟨hnew, hvalid⟩
    rw [ReceiveReport.ofVerdicts, ReceiveReport.accepted_foldl]
    simp only [receiveEach, List.countP_cons, hstores, if_true]
    omega
  have hlength : 0 < (source.unknownTo target now).length := List.length_pos_of_mem hunknown
  refine ⟨hsource.answerPeer target.summary, hreceived, hkept, howns, by simp [hcount, hlength], ?_, ?_⟩
  · refine length_unknownTo_lt ?_ hunknown ?_
    · intro id hmem
      rcases mem_unknownTo_iff.mp hmem with ⟨hown, hnone⟩
      rw [hfind id, Option.or_eq_none_iff] at hnone
      exact mem_unknownTo_iff.mpr ⟨(hkept id).mp hown, hnone.1⟩
    · intro hmem
      have hnone := (mem_unknownTo_iff.mp hmem).2
      rw [hfind first.id] at hnone
      simp [hnew, incoming, hvalid] at hnone
  · exact length_unknownTo_congr (hsource.mem_unknownTo_back htarget hdistinct howns)

/-- A transfer succeeds. It accepts something exactly when there is something to accept, and then
leaves less; what is to come the other way stays. -/
theorem transfer (hsource : source.Timely w made now) (htarget : target.Timely w made now)
    (hdistinct : Publication.NoCollision made) (hskew : 1 ≤ w.skew.micros) :
    ∃ count source' target' events,
      Pair.transfer source target now = .ok (count, source', target', events) ∧
        Moved w made now source target count source' target' := by
  cases hanswer : (source.answerPeer target.summary now).answer with
  | none =>
      have htransfer : Pair.transfer source target now =
          .ok (0, (source.answerPeer target.summary now).session, target,
            (source.answerPeer target.summary now).events) := by
        simp only [Pair.transfer, hanswer]
      exact ⟨_, _, _, _, htransfer, hsource.moved_of_no_answer htarget hdistinct hanswer⟩
  | some sent =>
      have htransfer : Pair.transfer source target now =
          .ok ((ReceiveReport.ofVerdicts (target.receiveEach sent now).answer).accepted,
            (source.answerPeer target.summary now).session, (target.receive sent now).session,
            (source.answerPeer target.summary now).events ++ (target.receive sent now).events) := by
        simp [Pair.transfer, hanswer, receive, htarget.isOpen]
      exact ⟨_, _, _, _, htransfer, hsource.moved_of_answer htarget hdistinct hskew hanswer⟩

end Timely

end Session

end Bulletin
