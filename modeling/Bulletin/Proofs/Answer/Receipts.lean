import Bulletin.Proofs.Answer.Reordering
import Bulletin.Proofs.Receipt.Events

/-!
# Receipts of an answer

An answer may give many receipts. The timers run first, and say what is lost; then the peer's summary
says what is confirmed. This file tells which receipts these are, and in which order they are given:

* `Session.Owing` — the receipts that are owed for the entries of a kind, told by their members;
* `Session.Consistent.owing_lost`, `Session.Consistent.owing_confirmed` — those that the timers give up,
  and those that a peer confirms;
* `Session.answer_receipts` — the receipts of an answer.
-/

namespace Bulletin

/-! ## Receipts that are owed -/

namespace Session

/-- The receipts that are owed for the entries of a kind, each once and by ascending id. -/
structure Owing (s : Session) (kind : PublicationId → Entry → Prop)
    (receipts : List (String × Publication)) : Prop where
  ascending : receipts.Pairwise fun a b => a.2.id.Before b.2.id
  mem : ∀ label p, (label, p) ∈ receipts ↔
    ∃ e, s.table.find? p.id = some e ∧ e.receipt = some label ∧ e.publication = p ∧ kind p.id e

variable {s : Session} {now : Timestamp} {peer : Summary} {test : PublicationId → Entry → Bool}
  {kind : PublicationId → Entry → Prop}

/-- A test need only be right about entries that a receipt is owed for. -/
theorem Consistent.owing_owedWhere (h : s.Consistent)
    (htest : ∀ id e label, s.table.find? id = some e → e.receipt = some label →
      (test id e = true ↔ kind id e)) :
    s.Owing kind (s.owedWhere test) where
  ascending := by
    have hrows : s.table.byId.Pairwise fun a b => a.1.Before b.1 :=
      List.pairwise_map.mp s.table.ascending_byId
    -- Every key is the id of its publication, so the receipts ascend as the keys do.
    have hkeyed : ∀ row ∈ s.table.byId, ∀ r,
        (if test row.1 row.2 then row.2.owes? else none) = some r → r.2.id = row.1 := by
      intro row hmem r hr
      obtain ⟨-, -, hpublication⟩ := owedWhere_row.mp hr
      exact hpublication ▸ h.keyed row.1 row.2 (Table.mem_byId_iff.mp hmem)
    apply List.pairwise_filterMap.mpr
    apply hrows.imp_of_mem
    intro a b ha hb hbefore r hr r' hr'
    rw [hkeyed a ha r hr, hkeyed b hb r' hr']
    exact hbefore
  mem := by
    intro label p
    rw [mem_owedWhere_iff]
    constructor
    · rintro ⟨id, e, hfind, hpasses, hreceipt, rfl⟩
      have hid : e.publication.id = id := h.keyed id e hfind
      subst hid
      exact ⟨e, hfind, hreceipt, rfl, (htest _ e label hfind hreceipt).mp hpasses⟩
    · rintro ⟨e, hfind, hreceipt, hpublication, hkind⟩
      exact ⟨p.id, e, hfind, (htest _ e label hfind hreceipt).mpr hkind, hreceipt, hpublication⟩

/-! ## The receipts of an answer -/

/-- A receipt that is still owed once the timers have run was owed before, within the lifetime. -/
theorem Consistent.owed_advance (h : s.Consistent) (now : Timestamp) {label : String}
    {p : Publication} :
    (∃ e, (s.advance now).session.table.find? p.id = some e ∧ e.receipt = some label ∧
        e.publication = p) ↔
      ∃ e, s.table.find? p.id = some e ∧ e.receipt = some label ∧ e.publication = p ∧
        ¬ e.arrived.after s.config.window.lifetime ≤ now := by
  constructor
  · rintro ⟨e', hfind, hreceipt, hpublication⟩
    rw [find?_advance] at hfind
    obtain ⟨e, hold, haged⟩ := Option.bind_eq_some_iff.mp hfind
    obtain ⟨howed, hlives⟩ := (Entry.receipt_of_aged haged).mp hreceipt
    have hunexpired : e.expired = false := (h.owed _ e hold (by simp [howed])).2.1
    refine ⟨e, hold, howed, ?_, ?_⟩
    · rw [← hpublication, Entry.aged_eq_some haged]
    · intro hdue
      rw [Entry.expires_iff.mpr ⟨hunexpired, hdue⟩] at hlives
      cases hlives
  · rintro ⟨e, hfind, hreceipt, hpublication, hearly⟩
    refine ⟨e, ?_, hreceipt, hpublication⟩
    rw [find?_advance, hfind]
    exact Entry.aged_of_early hearly

/-- The timers give up what is due. -/
theorem Consistent.owing_lost (h : s.Consistent) (now : Timestamp) :
    s.Owing (fun _ e => e.arrived.after s.config.window.lifetime ≤ now)
      (s.owedWhere fun _ e => e.expires s.config.window now) := by
  apply h.owing_owedWhere
  intro id e label hfind hreceipt
  have hunexpired : e.expired = false := (h.owed id e hfind (by simp [hreceipt])).2.1
  simp [Entry.expires_iff, hunexpired]

/-- A peer confirms what it has of the rest. -/
theorem Consistent.owing_confirmed (h : s.Consistent) (peer : Summary) (now : Timestamp) :
    s.Owing (fun id e => ¬ e.arrived.after s.config.window.lifetime ≤ now ∧ id ∈ peer.ids)
      ((s.advance now).session.owedWhere fun id e => e.isConfirmedBy id peer) := by
  have hadvanced : (s.advance now).session.Consistent := h.perform (.advance now)
  -- What is owed then is owed for own, unexpired publications, so the peer's summary alone decides.
  have howing : (s.advance now).session.Owing (fun id _ => id ∈ peer.ids)
      ((s.advance now).session.owedWhere fun id e => e.isConfirmedBy id peer) := by
    apply hadvanced.owing_owedWhere
    intro id e label hfind hreceipt
    obtain ⟨hown, hunexpired, -⟩ := hadvanced.owed id e hfind (by simp [hreceipt])
    simp [Entry.isConfirmedBy, hown, hunexpired, hreceipt, Summary.contains_iff]
  refine ⟨howing.ascending, ?_⟩
  intro label p
  calc
    (label, p) ∈ (s.advance now).session.owedWhere (fun id e => e.isConfirmedBy id peer)
        ↔ (∃ e, (s.advance now).session.table.find? p.id = some e ∧ e.receipt = some label ∧
            e.publication = p) ∧ p.id ∈ peer.ids := by
          simp only [howing.mem, ← and_assoc, exists_and_right]
    _ ↔ (∃ e, s.table.find? p.id = some e ∧ e.receipt = some label ∧ e.publication = p ∧
          ¬ e.arrived.after s.config.window.lifetime ≤ now) ∧ p.id ∈ peer.ids := by
          rw [h.owed_advance now]
    _ ↔ ∃ e, s.table.find? p.id = some e ∧ e.receipt = some label ∧ e.publication = p ∧
          ¬ e.arrived.after s.config.window.lifetime ≤ now ∧ p.id ∈ peer.ids := by
          simp only [← and_assoc, exists_and_right]

/-- Entries of two kinds that exclude each other are different entries. -/
theorem Owing.nodup {other : PublicationId → Entry → Prop} {first second : List (String × Publication)}
    (h : s.Owing kind first) (h' : s.Owing other second)
    (hexclusive : ∀ id e, kind id e → ¬ other id e) :
    ((first ++ second).map fun r => r.2.id).Nodup := by
  have hdistinct {receipts : List (String × Publication)}
      (hascending : receipts.Pairwise fun a b => a.2.id.Before b.2.id) :
      (receipts.map fun r => r.2.id).Nodup :=
    List.pairwise_map.mpr (hascending.imp fun hbefore => hbefore.ne)
  rw [List.map_append]
  refine List.nodup_append.mpr ⟨hdistinct h.ascending, hdistinct h'.ascending, ?_⟩
  intro id hfirst id' hsecond hsame
  obtain ⟨⟨label, p⟩, hp, rfl⟩ := List.mem_map.mp hfirst
  obtain ⟨⟨label', q⟩, hq, rfl⟩ := List.mem_map.mp hsecond
  obtain ⟨e, hfind, -, -, hkind⟩ := (h.mem label p).mp hp
  obtain ⟨e', hfind', -, -, hother⟩ := (h'.mem label' q).mp hq
  -- One id has one entry.
  change p.id = q.id at hsame
  rw [← hsame] at hfind' hother
  cases hfind.symm.trans hfind'
  exact hexclusive p.id e hkind hother

/-- A receipt that is owed after an answer is neither due nor for a publication that the peer has. -/
theorem Consistent.owed_answerPeer (h : s.Consistent) (hopen : s.closed = false) {id : PublicationId}
    {e' : Entry} {label : String}
    (hfind : (s.answerPeer peer now).session.table.find? id = some e')
    (hreceipt : e'.receipt = some label) :
    ∃ e, s.table.find? id = some e ∧ ¬ e.arrived.after s.config.window.lifetime ≤ now ∧
      id ∉ peer.ids := by
  have hadvanced : (s.advance now).session.Consistent := h.perform (.advance now)
  rw [session_answerPeer hopen, find?_confirm] at hfind
  obtain ⟨aged, hkept, rfl⟩ := Option.map_eq_some_iff.mp hfind
  obtain ⟨howed, hunconfirmed⟩ := Entry.receipt_of_afterConfirm hreceipt
  obtain ⟨hown, hunexpired, -⟩ := hadvanced.owed id aged hkept (by simp [howed])
  have hid : aged.publication.id = id := hadvanced.keyed id aged hkept
  subst hid
  obtain ⟨e, hold, -, -, hearly⟩ := (h.owed_advance now).mp ⟨aged, hkept, howed, rfl⟩
  refine ⟨e, hold, hearly, ?_⟩
  intro hseen
  simp [Entry.isConfirmedBy, hown, hunexpired, howed, Summary.contains_iff.mpr hseen] at hunconfirmed

/-- Which receipts an answer gives, and in which order. Whatever was done with a session, and whatever
order the rows of its table have, an answer at `now` first gives up the receipts that are owed for
entries whose lifetime is over, by ascending id and whether or not the peer has them. Then it confirms
those of the rest that the peer has, by ascending id. No receipt is given twice: the two lists name
every id once, and none of their receipts is owed afterwards. -/
theorem answer_receipts (config : SessionConfig) (policy : Policy) (s : Session) (calls : List Call)
    (peer : Summary) (now : Timestamp) (hopen : openWith config policy = .ok s)
    (hlive : (s.after calls).closed = false) :
    let board := s.after calls
    let due := fun e : Entry => e.arrived.after config.window.lifetime ≤ now
    ∃ lost confirmed : List (String × Publication),
      board.Owing (fun _ e => due e) lost ∧
        board.Owing (fun id e => ¬ due e ∧ id ∈ peer.ids) confirmed ∧
        (∀ t : Session, t.Reorders board →
          Event.given (t.answerPeer peer now).events =
            lost.map (fun r => (r.1, r.2, false)) ++ confirmed.map (fun r => (r.1, r.2, true))) ∧
        ((lost ++ confirmed).map fun r => r.2.id).Nodup ∧
        ∀ r ∈ lost ++ confirmed, ∀ e,
          (board.answerPeer peer now).session.table.find? r.2.id = some e → e.receipt = none := by
  intro board due
  have hconsistent : board.Consistent := Consistent.of_openWith hopen calls
  have hconfig : board.config = config := (settings_of_openWith hopen calls).1
  have hlost : board.Owing (fun _ e => due e)
      (board.owedWhere fun _ e => e.expires board.config.window now) := by
    simpa only [hconfig] using hconsistent.owing_lost now
  have hconfirmed : board.Owing (fun id e => ¬ due e ∧ id ∈ peer.ids)
      ((board.advance now).session.owedWhere fun id e => e.isConfirmedBy id peer) := by
    simpa only [hconfig] using hconsistent.owing_confirmed peer now
  refine ⟨_, _, hlost, hconfirmed, ?_, ?_, ?_⟩
  · intro t hreorders
    rw [(hreorders.answerPeer peer now).2, given_answerPeer hlive, given_advance, given_confirm]
  · exact hlost.nodup hconfirmed fun _ _ hdue hearly => hearly.1 hdue
  · intro r hr e hfind
    cases hreceipt : e.receipt with
    | none => rfl
    | some label =>
        obtain ⟨old, hold, hearly, hunseen⟩ := hconsistent.owed_answerPeer hlive hfind hreceipt
        rw [hconfig] at hearly
        -- Every listed receipt is for an entry that is due, or one that the peer has.
        rcases List.mem_append.mp hr with hmem | hmem
        · obtain ⟨e', hfind', -, -, hdue⟩ := (hlost.mem r.1 r.2).mp hmem
          cases hold.symm.trans hfind'
          exact absurd hdue hearly
        · obtain ⟨-, -, -, -, -, hseen⟩ := (hconfirmed.mem r.1 r.2).mp hmem
          exact absurd hseen hunseen

/-- A peer that has both of two publications, when the lifetime of the first is just over: the first is
lost and the second confirmed. -/
theorem answer_receipts_due_and_seen :
    let s := fresh {} (.lifecycle {})
    let p := Publication.stamped .root .zero [1]
    let q := Publication.stamped .root ⟨600000⟩ [2]
    let calls : List Call :=
      [.publish .root [1] .zero (some "first"), .publish .root [2] ⟨600000⟩ (some "second")]
    let given := Event.given ((s.after calls).answerPeer (.ofList [p.id, q.id]) ⟨1000000⟩).events
    openWith {} (.lifecycle {}) = .ok s ∧ (s.after calls).closed = false ∧
      ("first", p, false) ∈ given ∧ ("second", q, true) ∈ given ∧ ("first", p, true) ∉ given := by
  intro s p q calls given
  have hlive : (s.after calls).closed = false := open_after rfl (by simp [calls])
  obtain ⟨lost, confirmed, hlost, hconfirmed, hgiven, -⟩ :=
    answer_receipts {} (.lifecycle {}) s calls (.ofList [p.id, q.id]) ⟨1000000⟩ rfl hlive
  have hp : (s.after calls).table.find? p.id = some (.arrival p true .zero (some "first")) := by
    decide +kernel
  have hq : (s.after calls).table.find? q.id = some (.arrival q true ⟨600000⟩ (some "second")) := by
    decide +kernel
  have hfirst : ("first", p) ∈ lost := (hlost.mem "first" p).mpr ⟨_, hp, rfl, rfl, by decide⟩
  have hsecond : ("second", q) ∈ confirmed :=
    (hconfirmed.mem "second" q).mpr ⟨_, hq, rfl, rfl, by decide, by decide +kernel⟩
  have hunconfirmed : ("first", p) ∉ confirmed := by
    intro hmem
    obtain ⟨e, hfind, -, -, hearly, -⟩ := (hconfirmed.mem "first" p).mp hmem
    cases hp.symm.trans hfind
    exact hearly (by decide)
  have hlist : given = _ := hgiven (s.after calls) ⟨.refl _, rfl, rfl, rfl, rfl, rfl, rfl⟩
  refine ⟨rfl, hlive, ?_, ?_, ?_⟩
  · simp [hlist, hfirst]
  · simp [hlist, hsecond]
  · simp [hlist, hunconfirmed]

end Session

end Bulletin
