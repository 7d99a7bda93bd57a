import Bulletin.Proofs.Exchange.Transfer

/-!
# Convergence — exchanges bring two sessions to agree

Two sessions on one clock publish, subscribe, run their timers and exchange in any order. Whatever
they did, from then on a still clock and a bounded number of exchanges make each of them know what
the other has to offer:

* `PairCall`, `Pair.run` — what can be done with a pair, and sequences of it;
* `Pair.Timely` — what holds of a pair at all times, `Pair.Timely.run`;
* `Pair.Timely.exchange` — one exchange accepts something in each direction where something is
  missing, and then less is missing;
* `Pair.Timely.exchanges` — and so any number of them.
-/

namespace Bulletin

/-! ## Runs of a pair -/

inductive Side where
  | left
  | right
  deriving DecidableEq, Repr

/-- What can be done with a pair; `tick` runs the timers of one side. -/
inductive PairCall where
  | publish (side : Side) (name : Name) (payload : Bytes) (receipt : Option String)
  | subscribe (side : Side) (topic : Name)
  | tick (side : Side)
  | advance (d : Duration)
  | exchange
  deriving DecidableEq, Repr

namespace PairCall

def publication? (now : Timestamp) : PairCall → Option Publication
  | publish _ name payload _ => some (.stamped name now payload)
  | _ => none

def clockAfter (now : Timestamp) : PairCall → Timestamp
  | advance d => now.after d
  | _ => now

def made (now : Timestamp) : List PairCall → List Publication
  | [] => []
  | call :: rest => (call.publication? now).toList ++ made (call.clockAfter now) rest

end PairCall

namespace Pair

def on {α : Type} (pair : Pair) : Side → (Session → Step α) → PairStep α
  | .left => pair.onLeft
  | .right => pair.onRight

def perform (pair : Pair) : PairCall → Except SessionError Pair
  | .publish side name payload receipt =>
    let step := pair.on side fun s => s.publish name payload pair.now receipt
    match step.answer with
    | .error e => .error e
    | .ok _ => .ok step.pair
  | .subscribe side topic => .ok (pair.on side fun s => s.subscribe topic).pair
  | .tick side => .ok (pair.on side fun s => s.advance pair.now).pair
  | .advance d => .ok (pair.advance d)
  | .exchange =>
    match pair.exchange with
    | .error e => .error e
    | .ok step => .ok step.pair

def run (pair : Pair) : List PairCall → Except SessionError Pair
  | [] => .ok pair
  | call :: rest =>
    match pair.perform call with
    | .error e => .error e
    | .ok next => next.run rest

def exchanges (pair : Pair) (n : Nat) : Except SessionError Pair :=
  pair.run (List.replicate n .exchange)

/-! ## The invariant of a pair -/

/-- Both sessions are timely on the clock of the pair. -/
structure Timely (w : Window) (made : List Publication) (pair : Pair) : Prop where
  left : pair.left.Timely w made pair.now
  right : pair.right.Timely w made pair.now

/-- What `n` exchanges make of a pair: the clock stands still, what each session has to offer stays,
and at least `n` less of it is unknown to the other, or nothing. -/
structure Approaches (w : Window) (made : List Publication) (pair : Pair) (n : Nat) (later : Pair) :
    Prop where
  timely : later.Timely w made
  still : later.now = pair.now
  leftOwns : ∀ id, later.left.OwnsCurrent pair.now id ↔ pair.left.OwnsCurrent pair.now id
  rightOwns : ∀ id, later.right.OwnsCurrent pair.now id ↔ pair.right.OwnsCurrent pair.now id
  toRight : (later.left.unknownTo later.right pair.now).length ≤
    (pair.left.unknownTo pair.right pair.now).length - n
  toLeft : (later.right.unknownTo later.left pair.now).length ≤
    (pair.right.unknownTo pair.left pair.now).length - n

variable {w : Window} {made : List Publication} {pair middle later : Pair}

theorem Timely.refl (h : pair.Timely w made) : Approaches w made pair 0 pair :=
  ⟨h, rfl, fun _ => Iff.rfl, fun _ => Iff.rfl, Nat.le_refl _, Nat.le_refl _⟩

theorem Approaches.trans {m n : Nat} (hfirst : Approaches w made pair m middle)
    (hsecond : Approaches w made middle n later) : Approaches w made pair (m + n) later := by
  rcases hsecond with ⟨htimely, hstill, hleft, hright, htoRight, htoLeft⟩
  rw [hfirst.still] at hstill hleft hright htoRight htoLeft
  have hfewerRight := hfirst.toRight
  have hfewerLeft := hfirst.toLeft
  exact
    { timely := htimely
      still := hstill
      leftOwns := fun id => (hleft id).trans (hfirst.leftOwns id)
      rightOwns := fun id => (hright id).trans (hfirst.rightOwns id)
      toRight := by omega
      toLeft := by omega }

namespace Timely

/-- An exchange accepts something in each direction where something is unknown. Its two transfers do
not disturb each other. -/
theorem exchange (h : pair.Timely w made) (hdistinct : Publication.NoCollision made)
    (hskew : 1 ≤ w.skew.micros) :
    ∃ step, pair.exchange = .ok step ∧ Approaches w made pair 1 step.pair ∧
      (0 < step.answer.leftToRight ↔ 0 < (pair.left.unknownTo pair.right pair.now).length) ∧
      (0 < step.answer.rightToLeft ↔ 0 < (pair.right.unknownTo pair.left pair.now).length) := by
  rcases h.left.transfer h.right hdistinct hskew with ⟨toRight, left, right, first, hfirst, hthere⟩
  rcases hthere.receiving.transfer hthere.answering hdistinct hskew with
    ⟨toLeft, right', left', second, hsecond, hback⟩
  have hexchange : pair.exchange =
      .ok ⟨⟨toRight, toLeft⟩, { pair with left := left', right := right' }, first ++ second⟩ := by
    simp [Pair.exchange, hfirst, hsecond]
  -- The second transfer starts from what the first one left, which is as much as there was.
  have hfewer := hback.fewer
  rw [hthere.back] at hfewer
  refine ⟨_, hexchange, ?_, hthere.progress, ?_⟩
  · exact
      { timely := ⟨hback.receiving, hback.answering⟩
        still := rfl
        leftOwns := fun id => (hback.targetOwns id).trans (hthere.sourceOwns id)
        rightOwns := fun id => (hback.sourceOwns id).trans (hthere.targetOwns id)
        toRight := Nat.le_trans (Nat.le_of_eq hback.back) hthere.fewer
        toLeft := hfewer }
  · rw [← hthere.back]
    exact hback.progress

theorem on (h : pair.Timely w made) {α : Type} (side : Side) {call : Session → Step α}
    (hcall : ∀ s, s.Timely w made pair.now → (call s).session.Timely w made pair.now) :
    (pair.on side call).pair.Timely w made := by
  cases side with
  | left => exact ⟨hcall pair.left h.left, h.right⟩
  | right => exact ⟨h.left, hcall pair.right h.right⟩

theorem publish_answers (h : pair.Timely w made) (side : Side) (name : Name) (payload : Bytes)
    (receipt : Option String) :
    ∃ outcome, (pair.on side fun s => s.publish name payload pair.now receipt).answer =
      .ok outcome := by
  have hsession (s : Session) (hopen : s.closed = false) :
      ∃ outcome, (s.publish name payload pair.now receipt).answer = .ok outcome := by
    simp only [Session.publish, hopen, Bool.false_eq_true, if_false]
    split
    · exact ⟨_, rfl⟩
    · exact ⟨_, rfl⟩
  cases side with
  | left => exact hsession pair.left h.left.isOpen
  | right => exact hsession pair.right h.right.isOpen

/-- No call on a pair fails, and all of them keep it timely. -/
theorem perform (h : pair.Timely w made) (hdistinct : Publication.NoCollision made)
    (hskew : 1 ≤ w.skew.micros) (call : PairCall)
    (hmade : ∀ p ∈ call.publication? pair.now, p ∈ made) :
    ∃ next, pair.perform call = .ok next ∧ next.Timely w made ∧
      next.now = call.clockAfter pair.now := by
  have hnow {α : Type} (side : Side) (call : Session → Step α) :
      (pair.on side call).pair.now = pair.now := by
    cases side with
    | left => rfl
    | right => rfl
  cases call with
  | publish side name payload receipt =>
      rcases h.publish_answers side name payload receipt with ⟨outcome, hanswer⟩
      have hperform : pair.perform (.publish side name payload receipt) =
          .ok (pair.on side fun s => s.publish name payload pair.now receipt).pair := by
        simp only [Pair.perform, hanswer]
      refine ⟨_, hperform, h.on side ?_, hnow side _⟩
      intro s hs
      refine hs.perform (.publish name payload pair.now receipt) (by simp [Call.time?]) (by simp) ?_
        (by simp)
      intro name' payload' t receipt' hcall
      cases hcall
      exact hmade _ rfl
  | subscribe side topic =>
      refine ⟨_, rfl, h.on side ?_, hnow side _⟩
      intro s hs
      exact hs.perform (.subscribe topic) (by simp [Call.time?]) (by simp) (by simp) (by simp)
  | tick side =>
      refine ⟨_, rfl, h.on side ?_, hnow side _⟩
      intro s hs
      exact hs.perform (.advance pair.now) (by simp [Call.time?]) (by simp) (by simp) (by simp)
  | advance d =>
      have hlater : pair.now ≤ pair.now.after d := Timestamp.le_after pair.now d
      exact ⟨pair.advance d, rfl, ⟨h.left.later hlater, h.right.later hlater⟩, rfl⟩
  | exchange =>
      rcases h.exchange hdistinct hskew with ⟨step, hstep, happroaches, -, -⟩
      exact ⟨step.pair, by simp only [Pair.perform, hstep], happroaches.timely, happroaches.still⟩

theorem run (h : pair.Timely w made) (hdistinct : Publication.NoCollision made)
    (hskew : 1 ≤ w.skew.micros) (calls : List PairCall)
    (hmade : ∀ p ∈ PairCall.made pair.now calls, p ∈ made) :
    ∃ reached, pair.run calls = .ok reached ∧ reached.Timely w made := by
  -- `made` is fixed for the whole run; each call takes its publications off the front.
  induction calls generalizing pair with
  | nil => exact ⟨pair, rfl, h⟩
  | cons call rest ih =>
      rcases h.perform hdistinct hskew call fun p hp =>
        hmade p (List.mem_append_left _ (Option.mem_toList.mpr hp)) with ⟨next, hnext, htimely, hnow⟩
      rcases ih htimely fun p hp => hmade p (List.mem_append_right _ (hnow ▸ hp)) with
        ⟨reached, hrest, hreached⟩
      exact ⟨reached, by simp only [Pair.run, hnext, hrest], hreached⟩

theorem exchanges (h : pair.Timely w made) (hdistinct : Publication.NoCollision made)
    (hskew : 1 ≤ w.skew.micros) (n : Nat) :
    ∃ later, pair.exchanges n = .ok later ∧ Approaches w made pair n later := by
  induction n generalizing pair with
  | zero => exact ⟨pair, rfl, h.refl⟩
  | succ n ih =>
      rcases h.exchange hdistinct hskew with ⟨step, hstep, hone, -, -⟩
      rcases ih hone.timely with ⟨later, hrest, hmore⟩
      have happroaches := hone.trans hmore
      rw [Nat.add_comm] at happroaches
      refine ⟨later, ?_, happroaches⟩
      simp only [Pair.exchanges] at hrest
      simp only [Pair.exchanges, List.replicate_succ, Pair.run, Pair.perform, hstep, hrest]

theorem of_make {config : SessionConfig} (hvalid : config.fault? = none)
    (made : List Publication) :
    ∃ start, make config = .ok start ∧ start.now = epoch ∧ start.Timely config.window made := by
  have hopens (label : String) : ∃ s, Session.openDefault (config.withLabel label) = .ok s ∧
      s.Timely config.window made epoch := by
    have hopen : Session.openDefault (config.withLabel label) =
        .ok (.fresh (config.withLabel label) (.lifecycle config.window)) := by
      have hsame : (config.withLabel label).fault? = none := hvalid
      simp only [Session.openDefault, Session.openWith, hsame]
      rfl
    exact ⟨_, hopen, .fresh _ _, rfl, rfl, rfl, fun id e hfind => by cases hfind⟩
  rcases hopens "left" with ⟨left, hleft, hleftTimely⟩
  rcases hopens "right" with ⟨right, hright, hrightTimely⟩
  refine ⟨⟨⟨epoch⟩, left, right⟩, ?_, rfl, hleftTimely, hrightTimely⟩
  simp only [make, hleft, hright]

end Timely

/-! ## Convergence -/

/-- Whatever was done with a pair, exchanges with the clock held still bring the two sessions to
agree. Each exchange accepts something in every direction where something is unknown, and after as
many exchanges as there are unknown publications in the worse direction each table has every own,
unexpired publication of the other side, and exchanges accept nothing more. -/
theorem exchanges_converge (config : SessionConfig) (calls : List PairCall)
    (hvalid : config.fault? = none) (hskew : 1 ≤ config.window.skew.micros)
    (hdistinct : Publication.NoCollision (PairCall.made epoch calls)) :
    ∃ start reached, make config = .ok start ∧ start.run calls = .ok reached ∧
      ∀ n, ∃ pair step, reached.exchanges n = .ok pair ∧ pair.exchange = .ok step ∧
        pair.now = reached.now ∧
        (0 < step.answer.leftToRight ↔ 0 < (pair.left.unknownTo pair.right pair.now).length) ∧
        (0 < step.answer.rightToLeft ↔ 0 < (pair.right.unknownTo pair.left pair.now).length) ∧
        (max (reached.left.unknownTo reached.right reached.now).length
            (reached.right.unknownTo reached.left reached.now).length ≤ n →
          (∀ id, reached.left.OwnsCurrent reached.now id → pair.right.table.contains id = true) ∧
          (∀ id, reached.right.OwnsCurrent reached.now id → pair.left.table.contains id = true) ∧
          step.answer = ⟨0, 0⟩) := by
  rcases Timely.of_make hvalid (PairCall.made epoch calls) with ⟨start, hmake, hepoch, hstart⟩
  rcases hstart.run hdistinct hskew calls (by simp [hepoch]) with ⟨reached, hrun, hreached⟩
  refine ⟨start, reached, hmake, hrun, fun n => ?_⟩
  rcases hreached.exchanges hdistinct hskew n with ⟨pair, hpair, happroaches⟩
  rcases happroaches.timely.exchange hdistinct hskew with ⟨step, hstep, -, htoRight, htoLeft⟩
  refine ⟨pair, step, hpair, hstep, happroaches.still, htoRight, htoLeft, fun hbound => ?_⟩
  have hboundRight := Nat.le_trans (Nat.le_max_left _ _) hbound
  have hboundLeft := Nat.le_trans (Nat.le_max_right _ _) hbound
  have hfewerRight := happroaches.toRight
  have hfewerLeft := happroaches.toLeft
  have hallRight : (pair.left.unknownTo pair.right reached.now).length = 0 := by omega
  have hallLeft : (pair.right.unknownTo pair.left reached.now).length = 0 := by omega
  rw [happroaches.still] at htoRight htoLeft
  refine ⟨fun id hown => ?_, fun id hown => ?_, ?_⟩
  · exact Session.contains_of_ownsCurrent hallRight ((happroaches.leftOwns id).mpr hown)
  · exact Session.contains_of_ownsCurrent hallLeft ((happroaches.rightOwns id).mpr hown)
  · have hnoneRight : step.answer.leftToRight = 0 := by omega
    have hnoneLeft : step.answer.rightToLeft = 0 := by omega
    calc
      step.answer = ⟨step.answer.leftToRight, step.answer.rightToLeft⟩ := rfl
      _ = ⟨0, 0⟩ := by rw [hnoneRight, hnoneLeft]

/-- Two publications on the left and one on the right near the end of their lifetime, with the least
skew and a budget that each of them exceeds: two exchanges bring all of them over. -/
theorem exchanges_converge_last_moment :
    let config : SessionConfig :=
      { window := { lifetime := .ofMillis 100, skew := .ofMicros 1 }, budget := 1 }
    let calls : List PairCall :=
      [.subscribe .right .root, .publish .left .root [7] (some "receipt"),
        .publish .left .root [8] none, .publish .right .root [9] none, .advance (.ofMillis 99)]
    let p := Publication.stamped .root epoch [7]
    let q := Publication.stamped .root epoch [8]
    let r := Publication.stamped .root epoch [9]
    config.fault? = none ∧ 1 ≤ config.window.skew.micros ∧
      Publication.NoCollision (PairCall.made epoch calls) ∧
      ∃ start reached, make config = .ok start ∧ start.run calls = .ok reached ∧
        p.id ∈ reached.left.unknownTo reached.right reached.now ∧
        q.id ∈ reached.left.unknownTo reached.right reached.now ∧
        r.id ∈ reached.right.unknownTo reached.left reached.now ∧
        ∃ pair step, reached.exchanges 2 = .ok pair ∧ pair.exchange = .ok step ∧
          pair.right.table.contains p.id = true ∧ pair.right.table.contains q.id = true ∧
          pair.left.table.contains r.id = true ∧ step.answer = ⟨0, 0⟩ := by
  intro config calls p q r
  have hvalid : config.fault? = none := by decide
  have hskew : 1 ≤ config.window.skew.micros := by decide
  have hdistinct : Publication.NoCollision (PairCall.made epoch calls) := by
    unfold Publication.NoCollision
    decide +kernel
  rcases exchanges_converge config calls hvalid hskew hdistinct with
    ⟨start, reached, hmake, hrun, hall⟩
  -- The calls up to here sort no rows and can be evaluated; the exchanges follow from the theorem.
  have hview : ((make config).toOption.bind fun start => (start.run calls).toOption).all (fun pair =>
      (pair.now < epoch.after pair.left.config.window.lifetime ∧
        pair.now < epoch.after pair.right.config.window.lifetime) ∧
      (pair.left.table.size = 2 ∧
        pair.left.table.find? p.id = some (.arrival p true epoch (some "receipt")) ∧
        pair.left.table.find? q.id = some (.arrival q true epoch none) ∧
        pair.left.table.find? r.id = none) ∧
      pair.right.table.size = 1 ∧ pair.right.table.find? p.id = none ∧
        pair.right.table.find? q.id = none ∧
        pair.right.table.find? r.id = some (.arrival r true epoch none)) = true := by
    decide +kernel
  rw [hmake, Except.toOption, Option.bind_some, hrun, Except.toOption, Option.all_some,
    decide_eq_true_iff] at hview
  obtain ⟨⟨hearly, hearly'⟩, ⟨hleft, hp, hq, hlacksR⟩, hright, hlacksP, hlacksQ, hr⟩ := hview
  have hownsP : reached.left.OwnsCurrent reached.now p.id := ⟨_, hp, rfl, hearly⟩
  have hownsQ : reached.left.OwnsCurrent reached.now q.id := ⟨_, hq, rfl, hearly⟩
  have hownsR : reached.right.OwnsCurrent reached.now r.id := ⟨_, hr, rfl, hearly'⟩
  have hbound : max (reached.left.unknownTo reached.right reached.now).length
      (reached.right.unknownTo reached.left reached.now).length ≤ 2 := by
    have htoRight := reached.left.length_unknownTo_le reached.right reached.now
    have htoLeft := reached.right.length_unknownTo_le reached.left reached.now
    omega
  rcases hall 2 with ⟨pair, step, hpair, hstep, -, -, -, hdone⟩
  obtain ⟨hallRight, hallLeft, hquiet⟩ := hdone hbound
  exact ⟨hvalid, hskew, hdistinct, start, reached, hmake, hrun,
    Session.mem_unknownTo_iff.mpr ⟨hownsP, hlacksP⟩, Session.mem_unknownTo_iff.mpr ⟨hownsQ, hlacksQ⟩,
    Session.mem_unknownTo_iff.mpr ⟨hownsR, hlacksR⟩, pair, step, hpair, hstep,
    hallRight p.id hownsP, hallRight q.id hownsQ, hallLeft r.id hownsR, hquiet⟩

end Pair

end Bulletin
