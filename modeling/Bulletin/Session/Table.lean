import Bulletin.Publication.Basic

/-!
# The publication table

A session keeps every publication it knows under its id, with what the session itself knows about it.

- `Entry`: a publication, where it came from, how far its timers have run, and a receipt that its
  publisher may be waiting for.
- `Table`: entries by id. The rows stand in no particular order; what needs an order takes
  `Table.byId`.
-/

namespace Bulletin

/-- A publication and what a session knows about it. -/
structure Entry where
  publication : Publication
  /-- It was published here, and not received. -/
  own : Bool
  /-- It reached the end of its lifetime. -/
  expired : Bool
  /-- It is in the summary. -/
  active : Bool
  /-- When it came here; the timers run from then. -/
  arrived : Timestamp
  /-- The label of the receipt that is still owed to the publisher. -/
  receipt : Option String
  deriving DecidableEq, Repr

namespace Entry

def arrival (publication : Publication) (own : Bool) (now : Timestamp) (receipt : Option String) :
    Entry :=
  { publication, own, expired := false, active := true, arrived := now, receipt }

def settled (e : Entry) : Entry :=
  { e with receipt := none }

end Entry

/-- Entries by id, each id once. -/
structure Table where
  rows : List (PublicationId × Entry)
  distinct : (rows.map Prod.fst).Nodup
  deriving DecidableEq, Repr

namespace Table

def empty : Table := ⟨[], .nil⟩

def size (t : Table) : Nat :=
  t.rows.length

def find? (t : Table) (id : PublicationId) : Option Entry :=
  t.rows.lookup id

def contains (t : Table) (id : PublicationId) : Bool :=
  (t.find? id).isSome

def entries (t : Table) : List Entry :=
  t.rows.map Prod.snd

/-- The rows by ascending id. -/
def byId (t : Table) : List (PublicationId × Entry) :=
  t.rows.mergeSort fun a b => a.1.le b.1

theorem distinct_insert (rows : List (PublicationId × Entry)) (id : PublicationId) (e : Entry)
    (h : (rows.map Prod.fst).Nodup) :
    ((rows.filter (·.1 ≠ id) ++ [(id, e)]).map Prod.fst).Nodup := by
  rw [List.map_append, List.nodup_append]
  refine ⟨(List.filter_sublist.map _).nodup h, by simp, ?_⟩
  intro other hmem last hlast
  simp only [List.map_cons, List.map_nil, List.mem_singleton] at hlast
  simp only [List.mem_map, List.mem_filter, decide_eq_true_eq] at hmem
  obtain ⟨row, ⟨_, hne⟩, rfl⟩ := hmem
  exact fun hsame => hne (hsame.trans hlast)

/-- The table with an entry under an id, in place of any other. -/
def insert (t : Table) (id : PublicationId) (e : Entry) : Table :=
  ⟨t.rows.filter (·.1 ≠ id) ++ [(id, e)], distinct_insert t.rows id e t.distinct⟩

/-- One row as a function leaves it, or no row. -/
def updateRow (f : PublicationId → Entry → Option Entry) (row : PublicationId × Entry) :
    Option (PublicationId × Entry) :=
  (f row.1 row.2).map fun e => (row.1, e)

theorem keys_update_sublist (f : PublicationId → Entry → Option Entry)
    (rows : List (PublicationId × Entry)) :
    ((rows.filterMap (updateRow f)).map Prod.fst).Sublist (rows.map Prod.fst) := by
  induction rows with
  | nil => simp
  | cons row rest ih =>
    cases h : f row.1 row.2 with
    | none => simpa [List.filterMap_cons, updateRow, h] using ih.cons row.1
    | some e => simpa [List.filterMap_cons, updateRow, h] using ih

/-- Every entry changed or taken out, as `f` says. -/
def update (t : Table) (f : PublicationId → Entry → Option Entry) : Table :=
  ⟨t.rows.filterMap (updateRow f), (keys_update_sublist f t.rows).nodup t.distinct⟩

def mapEntries (t : Table) (f : PublicationId → Entry → Entry) : Table :=
  t.update fun id e => some (f id e)

/-! ## What is found after a change -/

theorem lookup_later {id other : PublicationId} (h : other ≠ id) (e : Entry)
    (rows : List (PublicationId × Entry)) : ((id, e) :: rows).lookup other = rows.lookup other := by
  simp [List.lookup_cons, beq_eq_false_iff_ne.mpr h]

theorem lookup_filter_ne (rows : List (PublicationId × Entry)) (id other : PublicationId) :
    (rows.filter (·.1 ≠ id)).lookup other = if other = id then none else rows.lookup other := by
  induction rows with
  | nil => simp
  | cons row rest ih =>
    obtain ⟨key, e⟩ := row
    by_cases hkey : key = id
    · rw [List.filter_cons_of_neg (by simp [hkey]), ih]
      by_cases hother : other = id
      · simp [hother]
      · rw [if_neg hother, if_neg hother, lookup_later (hkey ▸ hother)]
    · rw [List.filter_cons_of_pos (by simp [hkey])]
      by_cases hother : other = key
      · subst hother
        rw [List.lookup_cons_self, List.lookup_cons_self, if_neg hkey]
      · rw [lookup_later hother, lookup_later hother, ih]

theorem find?_insert (t : Table) (id other : PublicationId) (e : Entry) :
    (t.insert id e).find? other = if other = id then some e else t.find? other := by
  rw [find?, insert, List.lookup_append, lookup_filter_ne]
  by_cases h : other = id
  · subst h
    rw [if_pos rfl, if_pos rfl, List.lookup_cons_self]
    rfl
  · rw [if_neg h, if_neg h, lookup_later h]
    exact Option.or_none

theorem lookup_update (f : PublicationId → Entry → Option Entry)
    (rows : List (PublicationId × Entry)) (hdistinct : (rows.map Prod.fst).Nodup)
    (id : PublicationId) :
    (rows.filterMap (updateRow f)).lookup id = (rows.lookup id).bind (f id) := by
  induction rows with
  | nil => rfl
  | cons row rest ih =>
    obtain ⟨key, e⟩ := row
    obtain ⟨hfirst, hrest⟩ := List.nodup_cons.mp hdistinct
    have htail := ih hrest
    by_cases hkey : id = key
    · subst hkey
      have habsent : rest.lookup id = none := by
        refine List.lookup_eq_none_iff.mpr fun row hmem => ?_
        have hne : row.1 ≠ id := fun hsame => hfirst (List.mem_map.mpr ⟨row, hmem, hsame⟩)
        simpa using Ne.symm hne
      rw [List.lookup_cons_self]
      cases hchange : f id e with
      | none => simp [updateRow, hchange, htail, habsent]
      | some changed => simp [updateRow, hchange]
    · rw [lookup_later hkey]
      cases hchange : f key e with
      | none => simpa [List.filterMap_cons, updateRow, hchange] using htail
      | some changed =>
        simpa [List.filterMap_cons, updateRow, hchange, lookup_later hkey] using htail

theorem find?_update (t : Table) (f : PublicationId → Entry → Option Entry) (id : PublicationId) :
    (t.update f).find? id = (t.find? id).bind (f id) :=
  lookup_update f t.rows t.distinct id

end Table

end Bulletin
