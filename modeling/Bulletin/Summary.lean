import Bulletin.Publication.Id

/-!
# Summaries

A summary is the set of ids that a session has on offer. It is kept as a strictly ascending list, so
equal sets are equal summaries. Peers send each other their summaries and answer with what is missing.
-/

namespace Bulletin

namespace PublicationId

def Before (a b : PublicationId) : Prop :=
  compare a b = .lt

instance (a b : PublicationId) : Decidable (Before a b) :=
  inferInstanceAs (Decidable (compare a b = .lt))

theorem Before.trans {a b c : PublicationId} (hab : Before a b) (hbc : Before b c) : Before a c :=
  Std.TransCmp.lt_trans hab hbc

theorem compare_eq_iff {a b : PublicationId} : compare a b = .eq ↔ a = b :=
  Std.LawfulEqCmp.compare_eq_iff_eq

theorem Before.ne {a b : PublicationId} (h : Before a b) : a ≠ b := by
  intro hsame
  rw [Before, compare_eq_iff.mpr hsame] at h
  cases h

theorem before_of_compare_gt {a b : PublicationId} (h : compare a b = .gt) : Before b a :=
  Std.OrientedCmp.lt_of_gt h

end PublicationId

/-- A set of ids, in ascending order. -/
structure Summary where
  ids : List PublicationId
  ascending : ids.Pairwise PublicationId.Before
  deriving DecidableEq, Repr

namespace Summary

def empty : Summary := ⟨[], .nil⟩

instance : Inhabited Summary := ⟨empty⟩

def contains (s : Summary) (id : PublicationId) : Bool :=
  s.ids.contains id

def size (s : Summary) : Nat :=
  s.ids.length

/-- An id put in its place in an ascending list, unless it is there already. -/
def insertInto (id : PublicationId) : List PublicationId → List PublicationId
  | [] => [id]
  | first :: rest =>
    match id.compare first with
    | .lt => id :: first :: rest
    | .eq => first :: rest
    | .gt => first :: insertInto id rest

theorem mem_insertInto {id other : PublicationId} {ids : List PublicationId} :
    other ∈ insertInto id ids ↔ other = id ∨ other ∈ ids := by
  induction ids with
  | nil => simp [insertInto]
  | cons first rest ih =>
    unfold insertInto
    split
    · simp
    · rename_i hequal
      have hsame := PublicationId.compare_eq_iff.mp hequal
      subst hsame
      simp
    · simp only [List.mem_cons, ih]
      constructor <;> rintro (h | h | h) <;> simp [h]

theorem insertInto_ascending {id : PublicationId} {ids : List PublicationId}
    (h : ids.Pairwise PublicationId.Before) : (insertInto id ids).Pairwise PublicationId.Before := by
  induction ids with
  | nil => simp [insertInto]
  | cons first rest ih =>
    obtain ⟨hfirst, hrest⟩ := List.pairwise_cons.mp h
    unfold insertInto
    split
    · rename_i hbefore
      refine List.pairwise_cons.mpr ⟨fun other hmem => ?_, h⟩
      rcases List.mem_cons.mp hmem with hsame | hlater
      · exact hsame ▸ hbefore
      · exact PublicationId.Before.trans hbefore (hfirst other hlater)
    · exact h
    · rename_i hafter
      refine List.pairwise_cons.mpr ⟨fun other hmem => ?_, ih hrest⟩
      rcases mem_insertInto.mp hmem with hsame | hlater
      · exact hsame ▸ PublicationId.before_of_compare_gt hafter
      · exact hfirst other hlater

def insert (s : Summary) (id : PublicationId) : Summary :=
  ⟨insertInto id s.ids, insertInto_ascending s.ascending⟩

def filter (s : Summary) (keep : PublicationId → Bool) : Summary :=
  ⟨s.ids.filter keep, s.ascending.filter keep⟩

def erase (s : Summary) (id : PublicationId) : Summary :=
  s.filter (· != id)

def eraseAll (s : Summary) (ids : List PublicationId) : Summary :=
  s.filter fun id => !ids.contains id

def ofList (ids : List PublicationId) : Summary :=
  ids.foldl insert empty

/-- The ids that are here and not at the peer, ascending. -/
def missingFrom (s peer : Summary) : List PublicationId :=
  s.ids.filter fun id => !peer.contains id

/-! ## Members -/

theorem contains_iff {s : Summary} {id : PublicationId} : s.contains id = true ↔ id ∈ s.ids := by
  simp [contains]

theorem mem_insert {s : Summary} {id other : PublicationId} :
    other ∈ (s.insert id).ids ↔ other = id ∨ other ∈ s.ids :=
  mem_insertInto

theorem mem_eraseAll {s : Summary} {ids : List PublicationId} {id : PublicationId} :
    id ∈ (s.eraseAll ids).ids ↔ id ∈ s.ids ∧ id ∉ ids := by
  simp [eraseAll, filter]

theorem mem_missingFrom {s peer : Summary} {id : PublicationId} :
    id ∈ s.missingFrom peer ↔ id ∈ s.ids ∧ id ∉ peer.ids := by
  simp [missingFrom, contains]

theorem nodup (s : Summary) : s.ids.Nodup :=
  s.ascending.imp fun h => h.ne

/-- Summaries with the same members are the same. -/
theorem eq_of_mem_iff {a b : Summary} (h : ∀ id, id ∈ a.ids ↔ id ∈ b.ids) : a = b := by
  have hperm : a.ids.Perm b.ids := (List.perm_ext_iff_of_nodup a.nodup b.nodup).mpr h
  have hasymm : ∀ x y : PublicationId, x ∈ a.ids → y ∈ b.ids → x.Before y → y.Before x → x = y :=
    fun x y _ _ hxy hyx => absurd rfl (hxy.trans hyx).ne
  have hids : a.ids = b.ids := List.Perm.eq_of_pairwise hasymm a.ascending b.ascending hperm
  cases a
  cases b
  simpa using hids

end Summary

end Bulletin
