import Bulletin.Reconcile
import Bulletin.Proofs.Deadlines
import Mathlib.Data.List.Sort

/-!
# Merging — one's own first, newest first

Two lists of publications are merged by sorting each of them by its timestamps, and the sort keeps
equal timestamps as they were. Publications may come more than once, and many may have no timestamp,
so the places where they stood tell them apart:

* `newestFirst_cons`, `newestFirst_filter` — where the first publication goes, and what is left of the
  order when some publications are taken out;
* `Sorts` — newest first, and equal timestamps by the place where they stood;
* `sorts_newestFirst`, `Sorts.unique` — sorting does this, and nothing else does;
* `Merges` — a sorted list of one's own publications, and a sorted list of the others behind it;
* `reconcile_determined` — merging does this, and nothing else does.
-/

namespace Bulletin

/-! ## Sorting what is left -/

theorem notOlder_trans (a b c : Publication) (hab : notOlder a b = true) (hbc : notOlder b c = true) :
    notOlder a c = true := by
  simp only [notOlder, decide_eq_true_eq, Timestamp.le_iff] at hab hbc ⊢
  exact Nat.le_trans hbc hab

theorem notOlder_total (a b : Publication) : (notOlder a b || notOlder b a) = true := by
  simp only [notOlder, Bool.or_eq_true, decide_eq_true_eq, Timestamp.le_iff]
  exact Nat.le_total _ _

/-- The first publication comes after those that are newer than it, and before all others. -/
theorem newestFirst_cons (p : Publication) (rest : List Publication) :
    let newer := (newestFirst rest).filter fun q => !notOlder p q
    let others := (newestFirst rest).filter fun q => notOlder p q
    newestFirst (p :: rest) = newer ++ p :: others ∧ newestFirst rest = newer ++ others := by
  intro newer others
  rcases List.mergeSort_cons notOlder_trans notOlder_total p rest with
    ⟨before, behind, hsorted, hrest, hbefore⟩
  have hpairwise : (newestFirst (p :: rest)).Pairwise fun a b => notOlder a b = true :=
    List.pairwise_mergeSort notOlder_trans notOlder_total (p :: rest)
  have hbehind : ∀ q ∈ behind, notOlder p q = true := by
    rw [newestFirst, hsorted] at hpairwise
    exact (List.pairwise_cons.mp (List.pairwise_append.mp hpairwise).2.1).1
  -- The stamp of `p` tells the two parts of the sorted rest apart.
  have hnewer : newer = before := by
    calc
      newer = before.filter (fun q => !notOlder p q) ++ behind.filter (fun q => !notOlder p q) := by
          rw [← List.filter_append, ← hrest]
          rfl
      _ = before ++ [] := by
          rw [List.filter_eq_self.mpr hbefore, List.filter_eq_nil_iff.mpr (by simpa using hbehind)]
      _ = before := List.append_nil before
  have hothers : others = behind := by
    calc
      others = before.filter (fun q => notOlder p q) ++ behind.filter (fun q => notOlder p q) := by
          rw [← List.filter_append, ← hrest]
          rfl
      _ = [] ++ behind := by
          rw [List.filter_eq_self.mpr hbehind, List.filter_eq_nil_iff.mpr (by simpa using hbefore)]
      _ = behind := List.nil_append behind
  rw [hnewer, hothers]
  exact ⟨hsorted, hrest⟩

/-- Equal stamps keep their order, so publications that are left out leave no trace in it. -/
theorem newestFirst_filter (keep : Publication → Bool) (publications : List Publication) :
    newestFirst (publications.filter keep) = (newestFirst publications).filter keep := by
  induction publications with
  | nil => simp [newestFirst]
  | cons p rest ih =>
      rcases newestFirst_cons p rest with ⟨hsorted, hrest⟩
      rw [hsorted, List.filter_append, List.filter_cons, List.filter_cons]
      split
      · rw [(newestFirst_cons p (rest.filter keep)).1, ih, List.filter_comm keep,
          List.filter_comm keep]
      · rw [ih, ← List.filter_append, ← hrest]

/-! ## Sorting is stable -/

/-- `a` is newer than `b`, or of the same time and stood before it. -/
def Ahead (a b : Publication × Nat) : Prop :=
  b.1.timestamp < a.1.timestamp ∨ a.1.timestamp = b.1.timestamp ∧ a.2 < b.2

theorem Ahead.asymm {a b : Publication × Nat} (hab : Ahead a b) (hba : Ahead b a) : False := by
  rcases hab with hnewer | ⟨hsame, hplace⟩
  · rcases hba with hnewer' | ⟨hsame', -⟩
    · exact Nat.lt_asymm hnewer hnewer'
    · exact Nat.lt_irrefl _ (hsame' ▸ hnewer)
  · rcases hba with hnewer' | ⟨-, hplace'⟩
    · exact Nat.lt_irrefl _ (hsame ▸ hnewer')
    · exact Nat.lt_asymm hplace hplace'

/-- The publications of `input` stand in `output` newest first, and any two of the same time as they
stood in `input`. The places tell occurrences of one publication apart. -/
structure Sorts (input output : List Publication) : Prop where
  permutes : output.Perm input
  descends : output.Pairwise fun p q => q.timestamp ≤ p.timestamp
  stable : ∃ placed : List (Publication × Nat), placed.map Prod.fst = output ∧
    placed.Perm input.zipIdx ∧
    placed.Pairwise fun a b => a.1.timestamp = b.1.timestamp → a.2 < b.2

/-- Timestamps and places together leave no two publications on a par. -/
theorem Sorts.exists_ahead {input output : List Publication} (h : Sorts input output) :
    ∃ placed : List (Publication × Nat), placed.map Prod.fst = output ∧ placed.Perm input.zipIdx ∧
      placed.Pairwise Ahead := by
  obtain ⟨placed, rfl, hperm, hties⟩ := h.stable
  have hdescends := List.pairwise_map.mp h.descends
  refine ⟨placed, rfl, hperm, (hdescends.and hties).imp ?_⟩
  rintro a b ⟨hle, htie⟩
  rcases Nat.lt_or_eq_of_le hle with hnewer | hsame
  · exact Or.inl hnewer
  · have htime := Timestamp.eq_of_toNat hsame.symm
    exact Or.inr ⟨htime, htie htime⟩

/-- There is one way to sort a list. -/
theorem Sorts.unique {input first second : List Publication} (h : Sorts input first)
    (h' : Sorts input second) : first = second := by
  obtain ⟨placed, rfl, hperm, hahead⟩ := h.exists_ahead
  obtain ⟨placed', rfl, hperm', hahead'⟩ := h'.exists_ahead
  have hsame : placed = placed' :=
    List.Perm.eq_of_pairwise (fun _ _ _ _ hab hba => (hab.asymm hba).elim) hahead hahead'
      (hperm.trans hperm'.symm)
  rw [hsame]

theorem pairwise_newestFirst (publications : List Publication) :
    (newestFirst publications).Pairwise fun p q => notOlder p q = true :=
  List.pairwise_mergeSort notOlder_trans notOlder_total publications

theorem sorts_newestFirst (publications : List Publication) :
    Sorts publications (newestFirst publications) where
  permutes := List.mergeSort_perm publications notOlder
  descends := (pairwise_newestFirst publications).imp fun h => of_decide_eq_true h
  stable := by
    -- Sorting by time and place, and then leaving the places out, is sorting by time.
    let placed := publications.zipIdx.mergeSort (List.zipIdxLE notOlder)
    have hperm : placed.Perm publications.zipIdx := List.mergeSort_perm _ _
    have hsorted : placed.Pairwise fun a b => List.zipIdxLE notOlder a b = true :=
      List.pairwise_mergeSort (List.zipIdxLE_trans notOlder_trans)
        (List.zipIdxLE_total notOlder_total) _
    have hplaces : placed.Pairwise fun a b => a.2 ≠ b.2 := by
      have hnodup : (placed.map Prod.snd).Nodup := by
        rw [(hperm.map Prod.snd).nodup_iff, List.zipIdx_map_snd]
        exact List.nodup_range'
      exact List.pairwise_map.mp hnodup
    refine ⟨placed, List.mergeSort_zipIdx, hperm, (hsorted.and hplaces).imp ?_⟩
    rintro a b ⟨hle, hne⟩ htime
    have hfirst : notOlder a.1 b.1 = true := by simp [notOlder, htime, Timestamp.le_iff]
    have hsecond : notOlder b.1 a.1 = true := by simp [notOlder, htime, Timestamp.le_iff]
    have hplace : a.2 ≤ b.2 := by simpa [List.zipIdxLE, hfirst, hsecond] using hle
    exact Nat.lt_of_le_of_ne hplace hne

/-- What is sorted is not sorted again. -/
theorem newestFirst_newestFirst (publications : List Publication) :
    newestFirst (newestFirst publications) = newestFirst publications :=
  List.mergeSort_of_pairwise (pairwise_newestFirst publications)

/-! ## Merging -/

/-- One's own publications are sorted in front, and the others are sorted behind them. -/
structure Merges (ours others merged : List Publication) : Prop where
  length : merged.length = ours.length + others.length
  front : Sorts ours (merged.take ours.length)
  back : Sorts others (merged.drop ours.length)

theorem Merges.unique {ours others first second : List Publication} (h : Merges ours others first)
    (h' : Merges ours others second) : first = second := by
  calc
    first = first.take ours.length ++ first.drop ours.length := (List.take_append_drop _ _).symm
    _ = second.take ours.length ++ second.drop ours.length := by
        rw [h.front.unique h'.front, h.back.unique h'.back]
    _ = second := List.take_append_drop _ _

theorem reconcile_of_ne_nil {ours : List Publication} (hours : ours ≠ [])
    (others : List Publication) : reconcile ours others = newestFirst ours ++ newestFirst others := by
  simp [reconcile, hours]

theorem merges_reconcile {ours : List Publication} (hours : ours ≠ [])
    (others : List Publication) : Merges ours others (reconcile ours others) := by
  have hlength (publications : List Publication) :
      (newestFirst publications).length = publications.length := List.length_mergeSort _
  rw [reconcile_of_ne_nil hours]
  refine ⟨by simp [hlength], ?_, ?_⟩
  · rw [List.take_left' (hlength ours)]
    exact sorts_newestFirst ours
  · rw [List.drop_left' (hlength ours)]
    exact sorts_newestFirst others

/-- Without own publications nothing is offered. With some, merging is determined: it is the one list
that has the own ones in front and the others behind, each part newest first, and what is of the same
time in the order in which it came; a missing timestamp counts as zero. Merging parts that were sorted
before gives the same. -/
theorem reconcile_determined (ours others : List Publication) :
    (ours = [] → reconcile ours others = []) ∧
      (ours ≠ [] → ∀ merged, Merges ours others merged ↔ merged = reconcile ours others) ∧
      (∀ p : Publication, p.timestamp? = none → p.timestamp = .zero) ∧
      reconcile (newestFirst ours) (newestFirst others) = reconcile ours others := by
  refine ⟨?_, ?_, ?_, ?_⟩
  · rintro rfl
    rfl
  · intro hours merged
    constructor
    · exact fun h => h.unique (merges_reconcile hours others)
    · rintro rfl
      exact merges_reconcile hours others
  · intro p hnone
    rw [Publication.timestamp, hnone]
    rfl
  · by_cases hours : ours = []
    · subst hours
      simp [newestFirst, reconcile]
    · have hsorted : newestFirst ours ≠ [] := fun hnil =>
        hours (List.Perm.nil_eq (hnil ▸ List.mergeSort_perm ours notOlder)).symm
      rw [reconcile_of_ne_nil hsorted, reconcile_of_ne_nil hours, newestFirst_newestFirst,
        newestFirst_newestFirst]

/-- A publication without a timestamp stays between two of time zero, and one that comes twice is there
twice: the places decide. -/
theorem reconcile_determined_ties :
    let bare : Publication := ⟨.root, [1]⟩
    let zero : Publication := .labelled "z" .zero
    let late : Publication := .labelled "l" ⟨9⟩
    let ours := [bare, zero, late, bare]
    let others := [zero, bare, late]
    ours ≠ [] ∧ bare.timestamp? = none ∧ bare.timestamp = .zero ∧
      reconcile ours others = [late, bare, zero, bare, late, zero, bare] := by
  intro bare zero late ours others
  obtain ⟨-, hmerges, hmissing, -⟩ := reconcile_determined ours others
  have hours : ours ≠ [] := List.cons_ne_nil _ _
  have hfront : Sorts ours [late, bare, zero, bare] :=
    ⟨by decide, by decide, [(late, 2), (bare, 0), (zero, 1), (bare, 3)], rfl, by decide, by decide⟩
  have hback : Sorts others [late, zero, bare] :=
    ⟨by decide, by decide, [(late, 2), (zero, 0), (bare, 1)], rfl, by decide, by decide⟩
  have hmerged : Merges ours others [late, bare, zero, bare, late, zero, bare] :=
    ⟨rfl, hfront, hback⟩
  exact ⟨hours, rfl, hmissing bare rfl, ((hmerges hours _).mp hmerged).symm⟩

end Bulletin
