import Bulletin.Proofs.Deadlines
import Bulletin.Proofs.Run

/-!
# Effects — what one call does to what is stored under one id

Everything that the runs of a session do to its table is told here, once, as a function of the call
and of the entry under a single id:

* `Session.entryAfter` — the entry under an id after a call, and `Session.find?_perform`, which says
  that the table agrees with it;
* `Session.kept_or_forgotten` — a stored publication keeps its origin and its arrival;
* `Session.entries_perform` — an invariant of entries needs three facts only: it survives ageing, it
  survives settling, and new arrivals have it;
* `Session.settings_perform` — configuration and policy never change;
* `Session.session_answerPeer`, `Session.events_answerPeer` — an answer is a run of the timers, then the
  receipts that are due, then a remark.

Later files reason about entries and do not open the calls again.
-/

namespace Bulletin

/-! ## Looking up -/

namespace Table

theorem mem_iff_lookup {rows : List (PublicationId × Entry)}
    (hdistinct : (rows.map Prod.fst).Nodup) {id : PublicationId} {e : Entry} :
    (id, e) ∈ rows ↔ rows.lookup id = some e := by
  induction rows with
  | nil => simp
  | cons row rest ih =>
      rcases row with ⟨key, first⟩
      have hparts := List.nodup_cons.mp hdistinct
      by_cases hkey : id = key
      · subst hkey
        -- No other row has this key, so a member with it is the first row.
        have habsent : (id, e) ∉ rest := fun hmem =>
          hparts.1 (List.mem_map.mpr ⟨(id, e), hmem, rfl⟩)
        rw [List.lookup_cons_self, List.mem_cons]
        constructor
        · rintro (hfirst | hmem)
          · cases hfirst
            rfl
          · exact absurd hmem habsent
        · intro hfirst
          cases hfirst
          exact Or.inl rfl
      · rw [lookup_later hkey, ← ih hparts.2, List.mem_cons]
        constructor
        · rintro (hfirst | hmem)
          · cases hfirst
            exact absurd rfl hkey
          · exact hmem
        · exact Or.inr

theorem mem_rows_iff {t : Table} {id : PublicationId} {e : Entry} :
    (id, e) ∈ t.rows ↔ t.find? id = some e :=
  mem_iff_lookup t.distinct

theorem mem_byId_iff {t : Table} {id : PublicationId} {e : Entry} :
    (id, e) ∈ t.byId ↔ t.find? id = some e := by
  rw [byId, List.mem_mergeSort, mem_rows_iff]

theorem nodup_keys_byId (t : Table) : (t.byId.map Prod.fst).Nodup :=
  ((List.mergeSort_perm t.rows _).map Prod.fst).nodup_iff.mpr t.distinct

theorem contains_iff {t : Table} {id : PublicationId} :
    t.contains id = true ↔ ∃ e, t.find? id = some e :=
  Option.isSome_iff_exists

theorem contains_eq_false_iff {t : Table} {id : PublicationId} :
    t.contains id = false ↔ t.find? id = none := by
  simp [contains]

theorem find?_mapEntries (t : Table) (f : PublicationId → Entry → Entry) (id : PublicationId) :
    (t.mapEntries f).find? id = (t.find? id).map (f id) := by
  rw [mapEntries, find?_update]
  cases t.find? id with
  | none => rfl
  | some e => rfl

end Table

theorem Session.mem_idsWhere_iff {s : Session} {test : Entry → Bool} {id : PublicationId} :
    id ∈ s.idsWhere test ↔ ∃ e, s.table.find? id = some e ∧ test e = true := by
  simp only [idsWhere, List.mem_map, List.mem_filter]
  constructor
  · rintro ⟨⟨key, e⟩, ⟨hmem, htest⟩, rfl⟩
    exact ⟨e, Table.mem_byId_iff.mp hmem, htest⟩
  · rintro ⟨e, hfind, htest⟩
    exact ⟨(id, e), ⟨Table.mem_byId_iff.mpr hfind, htest⟩, rfl⟩

/-! ## Ageing and settling one entry -/

namespace Entry

variable {e e' : Entry} {w : Window} {now : Timestamp}

theorem expires_iff :
    e.expires w now = true ↔ e.expired = false ∧ e.arrived.after w.lifetime ≤ now := by
  simp [expires]

theorem isForgotten_iff :
    e.isForgotten w now = true ↔ e.arrived.after w.lifetime.double ≤ now := by
  simp [isForgotten]

theorem aged_eq_none_iff : e.aged w now = none ↔ e.arrived.after w.lifetime.double ≤ now := by
  rw [← isForgotten_iff]
  unfold aged
  split
  · rename_i hforgotten
    simp [hforgotten]
  · rename_i hkept
    simp [hkept]

/-- An entry that outlives its ageing differs in its flags and its receipt only. -/
theorem aged_eq_some (h : e.aged w now = some e') :
    e' =
      { e with
        expired := e.expired || e.expires w now
        active := e.active && !e.unpublishes w now
        receipt := if e.expires w now then none else e.receipt } := by
  unfold aged at h
  split at h
  · cases h
  · cases h
    rfl

theorem expired_of_aged (h : e.aged w now = some e') :
    e'.expired = true ↔ e.expired = true ∨ e.arrived.after w.lifetime ≤ now := by
  rw [aged_eq_some h]
  simp only [Bool.or_eq_true, expires_iff]
  constructor
  · rintro (hexpired | ⟨-, hdue⟩)
    · exact Or.inl hexpired
    · exact Or.inr hdue
  · intro hcases
    cases hexpired : e.expired with
    | true => exact Or.inl rfl
    | false =>
        rw [hexpired] at hcases
        rcases hcases with hfalse | hdue
        · cases hfalse
        · exact Or.inr ⟨rfl, hdue⟩

theorem active_of_aged (h : e.aged w now = some e') :
    e'.active = true ↔ e.active = true ∧ ¬ e.arrived.after w.horizon ≤ now := by
  have hkept : e.isForgotten w now = false := by
    cases hforgotten : e.isForgotten w now with
    | false => rfl
    | true =>
        rw [aged_eq_none_iff.mpr (isForgotten_iff.mp hforgotten)] at h
        cases h
  rw [aged_eq_some h]
  cases hactive : e.active with
  | false => simp
  | true => simp [unpublishes, hactive, hkept]

/-- Before the end of the lifetime no timer runs. -/
theorem aged_of_early (hearly : ¬ e.arrived.after w.lifetime ≤ now) : e.aged w now = some e := by
  have hhorizon : ¬ e.arrived.after w.horizon ≤ now := fun hdue =>
    hearly (Nat.le_trans (Timestamp.after_mono (Nat.le_refl _) w.lifetime_le_horizon) hdue)
  have hdouble : ¬ e.arrived.after w.lifetime.double ≤ now := fun hdue =>
    hearly (Nat.le_trans (Timestamp.after_mono (Nat.le_refl _) w.lifetime_le_double) hdue)
  simp [aged, expires, unpublishes, isForgotten, hearly, hhorizon, hdouble]

theorem receipt_of_aged {label : String} (h : e.aged w now = some e') :
    e'.receipt = some label ↔ e.receipt = some label ∧ e.expires w now = false := by
  rw [aged_eq_some h]
  cases hexpires : e.expires w now with
  | true => simp
  | false => simp

/-- The timers do not ask for the receipt. -/
theorem aged_settled (e : Entry) (w : Window) (now : Timestamp) :
    e.settled.aged w now = (e.aged w now).map settled := by
  have hforgotten : e.settled.isForgotten w now = e.isForgotten w now := rfl
  unfold aged
  rw [hforgotten]
  split
  · rfl
  · simp only [Option.map_some, settled]
    simp [expires, unpublishes, isForgotten]

/-- What the answer to a peer leaves of an entry: its receipt is given if the peer has it. -/
def afterConfirm (e : Entry) (id : PublicationId) (peer : Summary) : Entry :=
  if e.isConfirmedBy id peer then e.settled else e

theorem afterConfirm_eq (e : Entry) (id : PublicationId) (peer : Summary) :
    e.afterConfirm id peer =
      { e with receipt := if e.isConfirmedBy id peer then none else e.receipt } := by
  unfold afterConfirm
  split
  · rfl
  · rfl

theorem settled_afterConfirm (e : Entry) (id : PublicationId) (peer : Summary) :
    (e.afterConfirm id peer).settled = e.settled := by
  rw [afterConfirm_eq]
  rfl

end Entry

/-! ## Receiving -/

namespace Session

variable {s : Session} {p : Publication} {now : Timestamp}

theorem session_accept (s : Session) (p : Publication) (now : Timestamp) :
    (s.accept p now).session =
      { s.store p.id (.arrival p false now none) with
        subscriptions := s.subscriptions.filter (·.live) } := rfl

theorem receiveOne_of_known (hknown : s.table.contains p.id = true) :
    (s.receiveOne p now).session = s := by
  simp [receiveOne, hknown]

theorem receiveOne_of_refused (hrefused : s.policy.valid p now = false) :
    (s.receiveOne p now).session = s := by
  cases hknown : s.table.contains p.id with
  | true => exact receiveOne_of_known hknown
  | false => simp [receiveOne, hknown, hrefused]

theorem receiveOne_of_accepted (hnew : s.table.contains p.id = false)
    (hvalid : s.policy.valid p now = true) :
    (s.receiveOne p now).session =
      { s.store p.id (.arrival p false now none) with
        subscriptions := s.subscriptions.filter (·.live) } := by
  rw [← session_accept]
  simp [receiveOne, hnew, hvalid]

/-- Of some received publications, the one that is stored under an id if nothing is there yet. -/
def incoming (s : Session) (publications : List Publication) (now : Timestamp)
    (id : PublicationId) : Option Publication :=
  publications.find? fun p => decide (p.id = id) && s.policy.valid p now

theorem incoming_cons (s : Session) (p : Publication) (rest : List Publication) (now : Timestamp)
    (id : PublicationId) :
    s.incoming (p :: rest) now id = (s.incoming [p] now id).or (s.incoming rest now id) := by
  unfold incoming
  rw [List.find?_cons, List.find?_singleton]
  split
  · rename_i hpick
    simp [hpick]
  · rename_i hpick
    simp [hpick]

theorem incoming_eq_some {publications : List Publication} {id : PublicationId}
    (h : s.incoming publications now id = some p) :
    p ∈ publications ∧ p.id = id ∧ s.policy.valid p now = true := by
  have hpick := List.find?_some h
  simp only [Bool.and_eq_true, decide_eq_true_eq] at hpick
  exact ⟨List.mem_of_find?_eq_some h, hpick.1, hpick.2⟩

theorem find?_receiveOne (s : Session) (p : Publication) (now : Timestamp) (id : PublicationId) :
    (s.receiveOne p now).session.table.find? id =
      (s.table.find? id).or
        ((s.incoming [p] now id).map fun p => .arrival p false now none) := by
  cases hvalid : s.policy.valid p now with
  | false =>
      rw [receiveOne_of_refused hvalid]
      simp [incoming, hvalid]
  | true =>
      cases hknown : s.table.contains p.id with
      | true =>
          rw [receiveOne_of_known hknown]
          rcases Table.contains_iff.mp hknown with ⟨e, hfind⟩
          by_cases hid : p.id = id
          · subst hid
            simp [hfind]
          · simp [incoming, hid]
      | false =>
          rw [receiveOne_of_accepted hknown hvalid]
          have hnone : s.table.find? p.id = none := Table.contains_eq_false_iff.mp hknown
          have hinsert := Table.find?_insert s.table p.id id (.arrival p false now none)
          by_cases hid : p.id = id
          · subst hid
            simpa [store, incoming, hnone, hvalid] using hinsert
          · have hne : id ≠ p.id := fun hsame => hid hsame.symm
            simpa [store, incoming, hid, hne] using hinsert

/-- A received publication is stored, or the session stays as it is. -/
theorem session_receiveOne (s : Session) (p : Publication) (now : Timestamp) :
    (s.receiveOne p now).session = s ∨
      (s.receiveOne p now).session =
        { s.store p.id (.arrival p false now none) with
          subscriptions := s.subscriptions.filter (·.live) } := by
  cases hknown : s.table.contains p.id with
  | true => exact Or.inl (receiveOne_of_known hknown)
  | false =>
      cases hvalid : s.policy.valid p now with
      | false => exact Or.inl (receiveOne_of_refused hvalid)
      | true => exact Or.inr (receiveOne_of_accepted hknown hvalid)

theorem settings_receiveOne (s : Session) (p : Publication) (now : Timestamp) :
    (s.receiveOne p now).session.config = s.config ∧
      (s.receiveOne p now).session.policy = s.policy ∧
      (s.receiveOne p now).session.closed = s.closed := by
  rcases s.session_receiveOne p now with hsame | hstored
  · rw [hsame]
    exact ⟨rfl, rfl, rfl⟩
  · rw [hstored]
    exact ⟨rfl, rfl, rfl⟩

/-- What every received publication preserves holds after a list of them. -/
theorem receiveEach_induction {P : Session → Prop}
    (hone : ∀ s p, P s → P (s.receiveOne p now).session) (h : P s)
    (publications : List Publication) : P (s.receiveEach publications now).session := by
  induction publications generalizing s with
  | nil => exact h
  | cons p rest ih => exact ih (hone s p h)

theorem settings_receiveEach (s : Session) (publications : List Publication) (now : Timestamp) :
    (s.receiveEach publications now).session.config = s.config ∧
      (s.receiveEach publications now).session.policy = s.policy ∧
      (s.receiveEach publications now).session.closed = s.closed := by
  refine receiveEach_induction (P := fun t => t.config = s.config ∧ t.policy = s.policy ∧
    t.closed = s.closed) ?_ ⟨rfl, rfl, rfl⟩ publications
  intro t p hsame
  have hone := t.settings_receiveOne p now
  exact ⟨hone.1.trans hsame.1, hone.2.1.trans hsame.2.1, hone.2.2.trans hsame.2.2⟩

/-- A list of publications is taken in as if each id were served by the first valid one of it. -/
theorem find?_receiveEach (s : Session) (publications : List Publication) (now : Timestamp)
    (id : PublicationId) :
    (s.receiveEach publications now).session.table.find? id =
      (s.table.find? id).or
        ((s.incoming publications now id).map fun p => .arrival p false now none) := by
  induction publications generalizing s with
  | nil => simp [receiveEach, incoming]
  | cons p rest ih =>
      have hpolicy : (s.receiveOne p now).session.incoming rest now id =
          s.incoming rest now id := by
        unfold incoming
        rw [(s.settings_receiveOne p now).2.1]
      calc
        (s.receiveEach (p :: rest) now).session.table.find? id
            = ((s.receiveOne p now).session.table.find? id).or
                (((s.receiveOne p now).session.incoming rest now id).map fun p =>
                  .arrival p false now none) := ih (s.receiveOne p now).session
        _ = (s.table.find? id).or
              ((s.incoming (p :: rest) now id).map fun p => .arrival p false now none) := by
            rw [hpolicy, find?_receiveOne, Option.or_assoc, s.incoming_cons p rest now id,
              Option.map_or]

theorem session_receive (hopen : s.closed = false) (publications : List Publication)
    (now : Timestamp) :
    (s.receive publications now).session = (s.receiveEach publications now).session := by
  simp [receive, hopen]

/-! ## Every call -/

theorem find?_publish (s : Session) (name : Name) (payload : Bytes) (now : Timestamp)
    (receipt : Option String) (id : PublicationId) :
    (s.publish name payload now receipt).session.table.find? id =
      (s.table.find? id).or
        (if s.closed = false ∧ (Publication.stamped name now payload).id = id then
          some (.arrival (.stamped name now payload) true now receipt)
        else none) := by
  cases hclosed : s.closed with
  | true => simp [publish, hclosed]
  | false =>
      cases hknown : s.table.contains (Publication.stamped name now payload).id with
      | true =>
          rcases Table.contains_iff.mp hknown with ⟨e, hfind⟩
          by_cases hid : (Publication.stamped name now payload).id = id
          · subst hid
            simp [publish, hclosed, hknown, hfind]
          · simp [publish, hclosed, hknown, hid]
      | false =>
          have hnone := Table.contains_eq_false_iff.mp hknown
          have hinsert := Table.find?_insert s.table (Publication.stamped name now payload).id id
            (.arrival (.stamped name now payload) true now receipt)
          by_cases hid : (Publication.stamped name now payload).id = id
          · subst hid
            simpa [publish, hclosed, hknown, store, hnone] using hinsert
          · have hne : id ≠ (Publication.stamped name now payload).id := fun hsame => hid hsame.symm
            simpa [publish, hclosed, hknown, store, hid, hne] using hinsert

theorem find?_advance (s : Session) (now : Timestamp) (id : PublicationId) :
    (s.advance now).session.table.find? id =
      (s.table.find? id).bind (·.aged s.config.window now) :=
  Table.find?_update s.table _ id

theorem find?_confirm (s : Session) (peer : Summary) (id : PublicationId) :
    (s.confirm peer).session.table.find? id = (s.table.find? id).map (·.afterConfirm id peer) :=
  Table.find?_mapEntries s.table _ id

/-- An open session answers by running its timers and giving the receipts that are due. -/
theorem session_answerPeer {s : Session} (hopen : s.closed = false) (peer : Summary)
    (now : Timestamp) :
    (s.answerPeer peer now).session = ((s.advance now).session.confirm peer).session := by
  simp only [answerPeer, hopen, Bool.false_eq_true, if_false]
  split
  · rfl
  · rfl

def remarks (offer : List Publication) : Option (List Publication) → List Event
  | some reply => [.note (.answered reply.length offer.length (totalSize reply))]
  | none => []

/-- An answer comes after the timers and the receipts, with one remark on it. -/
theorem events_answerPeer {s : Session} (hopen : s.closed = false) (peer : Summary)
    (now : Timestamp) :
    (s.answerPeer peer now).events =
      (s.advance now).events ++ ((s.advance now).session.confirm peer).events ++
        remarks ((s.answerPeer peer now).session.offer peer) (s.answerPeer peer now).answer := by
  rw [session_answerPeer hopen]
  simp only [answerPeer, hopen, Bool.false_eq_true, if_false]
  split
  · exact (List.append_nil _).symm
  · rfl

theorem find?_answerPeer {s : Session} (hopen : s.closed = false) (peer : Summary) (now : Timestamp)
    (id : PublicationId) :
    (s.answerPeer peer now).session.table.find? id =
      ((s.table.find? id).bind (·.aged s.config.window now)).map (·.afterConfirm id peer) := by
  rw [session_answerPeer hopen, find?_confirm, find?_advance]

/-- The entry under an id after a call. -/
def entryAfter (s : Session) (id : PublicationId) : Call → Option Entry
  | .publish name payload now receipt =>
      (s.table.find? id).or
        (if s.closed = false ∧ (Publication.stamped name now payload).id = id then
          some (.arrival (.stamped name now payload) true now receipt)
        else none)
  | .receive publications now =>
      if s.closed then s.table.find? id
      else
        (s.table.find? id).or
          ((s.incoming publications now id).map fun p => .arrival p false now none)
  | .answerPeer peer now =>
      if s.closed then s.table.find? id
      else ((s.table.find? id).bind (·.aged s.config.window now)).map (·.afterConfirm id peer)
  | .advance now => (s.table.find? id).bind (·.aged s.config.window now)
  | .close => if s.closed then s.table.find? id else (s.table.find? id).map Entry.settled
  | _ => s.table.find? id

theorem find?_perform (s : Session) (call : Call) (id : PublicationId) :
    (s.perform call).session.table.find? id = s.entryAfter id call := by
  cases call with
  | publish name payload now receipt => exact s.find?_publish name payload now receipt id
  | subscribe topic => rfl
  | subscribeUri topic =>
      simp only [perform, subscribeUri, Step.discard, entryAfter]
      split
      · rfl
      · rfl
  | receive publications now =>
      cases hclosed : s.closed with
      | true => simp [perform, Step.discard, receive, entryAfter, hclosed]
      | false =>
          simpa [perform, Step.discard, receive, entryAfter, hclosed] using
            s.find?_receiveEach publications now id
  | answerPeer peer now =>
      cases hclosed : s.closed with
      | true => simp [perform, Step.discard, answerPeer, entryAfter, hclosed]
      | false =>
          have hsession := session_answerPeer hclosed peer now
          simp [perform, Step.discard, entryAfter, hclosed, hsession, find?_confirm, find?_advance]
  | advance now => exact s.find?_advance now id
  | close =>
      cases hclosed : s.closed with
      | true => simp [perform, close, entryAfter, hclosed]
      | false => simp [perform, close, entryAfter, hclosed, Table.find?_mapEntries]
  | cancel token => rfl

/-- A call changes flags and receipt of an entry at most, until the timers forget it. -/
theorem kept_or_forgotten {s : Session} {id : PublicationId} {e : Entry}
    (hfind : s.table.find? id = some e) (call : Call) :
    (∃ e', (s.perform call).session.table.find? id = some e' ∧ e'.publication = e.publication ∧
        e'.own = e.own ∧ e'.arrived = e.arrived) ∨
      ∃ now, call.time? = some now ∧ e.arrived.after s.config.window.lifetime.double ≤ now ∧
        (s.perform call).session.table.find? id = none := by
  have haging (now : Timestamp) :
      (∃ e', e.aged s.config.window now = some e' ∧ e'.publication = e.publication ∧
          e'.own = e.own ∧ e'.arrived = e.arrived) ∨
        e.arrived.after s.config.window.lifetime.double ≤ now ∧
          e.aged s.config.window now = none := by
    cases haged : e.aged s.config.window now with
    | none => exact Or.inr ⟨Entry.aged_eq_none_iff.mp haged, rfl⟩
    | some e' =>
        refine Or.inl ⟨e', rfl, ?_⟩
        rw [Entry.aged_eq_some haged]
        exact ⟨rfl, rfl, rfl⟩
  rw [find?_perform]
  cases call with
  | publish name payload now receipt =>
      exact Or.inl ⟨e, by simp [entryAfter, hfind], rfl, rfl, rfl⟩
  | subscribe topic => exact Or.inl ⟨e, hfind, rfl, rfl, rfl⟩
  | subscribeUri topic => exact Or.inl ⟨e, hfind, rfl, rfl, rfl⟩
  | receive publications now =>
      exact Or.inl ⟨e, by simp [entryAfter, hfind], rfl, rfl, rfl⟩
  | answerPeer peer now =>
      cases hclosed : s.closed with
      | true => exact Or.inl ⟨e, by simp [entryAfter, hfind, hclosed], rfl, rfl, rfl⟩
      | false =>
          rcases haging now with ⟨e', haged, hsame⟩ | ⟨hdue, haged⟩
          · refine Or.inl ⟨e'.afterConfirm id peer, ?_, ?_⟩
            · simp [entryAfter, hclosed, hfind, haged]
            · rw [Entry.afterConfirm_eq]
              exact hsame
          · exact Or.inr ⟨now, rfl, hdue, by simp [entryAfter, hclosed, hfind, haged]⟩
  | advance now =>
      rcases haging now with ⟨e', haged, hsame⟩ | ⟨hdue, haged⟩
      · exact Or.inl ⟨e', by simp [entryAfter, hfind, haged], hsame⟩
      · exact Or.inr ⟨now, rfl, hdue, by simp [entryAfter, hfind, haged]⟩
  | close =>
      cases hclosed : s.closed with
      | true => exact Or.inl ⟨e, by simp [entryAfter, hfind, hclosed], rfl, rfl, rfl⟩
      | false => exact Or.inl ⟨e.settled, by simp [entryAfter, hfind, hclosed], rfl, rfl, rfl⟩
  | cancel token => exact Or.inl ⟨e, hfind, rfl, rfl, rfl⟩

/-- Configuration and policy never change, and only closing closes. -/
theorem settings_perform (s : Session) (call : Call) :
    (s.perform call).session.config = s.config ∧
      (s.perform call).session.policy = s.policy ∧
      ((s.perform call).session.closed = true ↔ s.closed = true ∨ call = .close) := by
  cases call with
  | publish name payload now receipt =>
      simp only [perform, publish, Step.discard]
      split
      · simp
      · split
        · simp
        · simp [store]
  | subscribe topic => simp [perform, Step.discard, subscribe]
  | subscribeUri topic =>
      simp only [perform, subscribeUri, Step.discard]
      split
      · simp
      · simp [subscribe]
  | receive publications now =>
      simp only [perform, receive, Step.discard]
      split
      · simp
      · have hsettings := s.settings_receiveEach publications now
        simp [hsettings.1, hsettings.2.1, hsettings.2.2]
  | answerPeer peer now =>
      cases hclosed : s.closed with
      | true => simp [perform, Step.discard, answerPeer, hclosed]
      | false =>
          simp only [perform, Step.discard, session_answerPeer hclosed peer now]
          simp [confirm, advance, hclosed]
  | advance now => simp [perform, Step.discard, advance]
  | close =>
      simp only [perform, close]
      split
      · rename_i hclosed
        simp [hclosed]
      · simp
  | cancel token => simp [perform, cancel]

theorem open_perform {s : Session} (hopen : s.closed = false) {call : Call} (hkeep : call ≠ .close) :
    (s.perform call).session.closed = false := by
  rw [← Bool.not_eq_true, (s.settings_perform call).2.2, hopen]
  simp [hkeep]

/-- A run without a closing call leaves a session open. -/
theorem open_after {s : Session} (hopen : s.closed = false) {calls : List Call}
    (hkeep : .close ∉ calls) : (s.after calls).closed = false := by
  induction calls generalizing s with
  | nil => exact hopen
  | cons call rest ih =>
      have hcall : call ≠ .close := fun hsame => hkeep (hsame ▸ List.mem_cons_self)
      exact ih (open_perform hopen hcall) fun hmem => hkeep (List.mem_cons_of_mem call hmem)

theorem settings_after (s : Session) (calls : List Call) :
    (s.after calls).config = s.config ∧ (s.after calls).policy = s.policy := by
  refine after_induction (P := fun t => t.config = s.config ∧ t.policy = s.policy) ?_ ⟨rfl, rfl⟩ calls
  intro t call hsame
  rcases t.settings_perform call with ⟨hconfig, hpolicy, -⟩
  exact ⟨hconfig.trans hsame.1, hpolicy.trans hsame.2⟩

/-! ## Invariants of entries -/

/-- An invariant of all entries survives a call if it survives ageing and settling, and if what the
call publishes or receives has it. -/
theorem entries_perform {Q : PublicationId → Entry → Prop} {s : Session} {call : Call}
    (hall : ∀ id e, s.table.find? id = some e → Q id e)
    (haged : ∀ now, call.time? = some now → ∀ id e e', Q id e →
      e.aged s.config.window now = some e' → Q id e')
    (hsettled : ∀ id e, Q id e → Q id e.settled)
    (hpublished : ∀ name payload now receipt, call = .publish name payload now receipt →
      s.closed = false →
      Q (Publication.stamped name now payload).id
        (.arrival (.stamped name now payload) true now receipt))
    (hreceived : ∀ publications now p, call = .receive publications now → s.closed = false →
      p ∈ publications → s.policy.valid p now = true → Q p.id (.arrival p false now none)) :
    ∀ id e, (s.perform call).session.table.find? id = some e → Q id e := by
  intro id e hfind
  rw [find?_perform] at hfind
  cases call with
  | publish name payload now receipt =>
      simp only [entryAfter, Option.or_eq_some_iff] at hfind
      rcases hfind with hold | ⟨-, hnew⟩
      · exact hall id e hold
      · split at hnew
        · rename_i hcond
          cases hnew
          exact hcond.2 ▸ hpublished name payload now receipt rfl hcond.1
        · cases hnew
  | subscribe topic => exact hall id e hfind
  | subscribeUri topic => exact hall id e hfind
  | receive publications now =>
      simp only [entryAfter] at hfind
      split at hfind
      · exact hall id e hfind
      · rename_i hopen
        rcases Option.or_eq_some_iff.mp hfind with hold | ⟨-, hnew⟩
        · exact hall id e hold
        · rcases Option.map_eq_some_iff.mp hnew with ⟨p, hincoming, rfl⟩
          rcases incoming_eq_some hincoming with ⟨hmem, rfl, hvalid⟩
          exact hreceived publications now p rfl (by simpa using hopen) hmem hvalid
  | answerPeer peer now =>
      simp only [entryAfter] at hfind
      split at hfind
      · exact hall id e hfind
      · rcases Option.map_eq_some_iff.mp hfind with ⟨aged, hbind, rfl⟩
        rcases Option.bind_eq_some_iff.mp hbind with ⟨old, hold, haging⟩
        have hkept : Q id aged := haged now rfl id old aged (hall id old hold) haging
        unfold Entry.afterConfirm
        split
        · exact hsettled id aged hkept
        · exact hkept
  | advance now =>
      rcases Option.bind_eq_some_iff.mp hfind with ⟨old, hold, haging⟩
      exact haged now rfl id old e (hall id old hold) haging
  | close =>
      simp only [entryAfter] at hfind
      split at hfind
      · exact hall id e hfind
      · rcases Option.map_eq_some_iff.mp hfind with ⟨old, hold, rfl⟩
        exact hsettled id old (hall id old hold)
  | cancel token => exact hall id e hfind

end Session

end Bulletin
