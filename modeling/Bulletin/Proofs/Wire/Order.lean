import Bulletin.Proofs.Wire.RoundTrip
import Mathlib.Tactic.SplitIfs

/-!
# Order — the canonical order is the order of the bytes on the wire

Components are compared by type, then by length, then byte by byte, and names component by component.
Whoever has only the wire forms can compare these byte by byte and finds the same order. Two things
make it so, and both are stated with arbitrary bytes behind what is compared:

* `Wire.compareLex_writeVar_append` — numbers on the wire are ordered as numbers, because the first
  byte of the shortest form never falls when the number grows (`Wire.lead_mono`);
* `Component.compareLex_encode_append` — the wire forms of two components differ before either of them
  ends, so the comparison of two sequences never runs from one component into the next.

From these:

* `Name.compare_eq_wire` — the order of names;
* `Name.compare_of_covers` — a topic comes before the names under it;
* `Name.canonical_order` — all of it together.
-/

namespace Bulletin

/-! ## Byte strings -/

namespace Bytes

variable {a b : Bytes} {m n : Nat}

/-- For strings of one length, what stands behind them counts when they are equal. -/
theorem compareLex_append (h : a.length = b.length) (rest rest' : Bytes) :
    List.compareLex Ord.compare (a ++ rest) (b ++ rest') =
      (List.compareLex Ord.compare a b).then (List.compareLex Ord.compare rest rest') := by
  induction a generalizing b with
  | nil =>
      cases b with
      | nil => rfl
      | cons y b => cases h
  | cons x a ih =>
      cases b with
      | nil => cases h
      | cons y b =>
          simp only [List.cons_append, List.compareLex_cons_cons, Ordering.then_assoc,
            ih (Nat.succ.inj h)]

theorem compare_digits (m n : Nat) :
    (Ord.compare (m / 256) (n / 256)).then (Ord.compare (m % 256) (n % 256)) = Ord.compare m n := by
  rcases Nat.lt_trichotomy (m / 256) (n / 256) with hlt | heq | hgt
  · have hless : m < n := by omega
    rw [Nat.compare_eq_lt.mpr hlt, Nat.compare_eq_lt.mpr hless, Ordering.lt_then]
  · rw [Nat.compare_eq_eq.mpr heq, Ordering.eq_then, Nat.compare_eq_ite_lt, Nat.compare_eq_ite_lt]
    have hless : m % 256 < n % 256 ↔ m < n := by omega
    have hgreater : n % 256 < m % 256 ↔ n < m := by omega
    simp only [hless, hgreater]
  · have hgreater : n < m := by omega
    rw [Nat.compare_eq_gt.mpr hgt, Nat.compare_eq_gt.mpr hgreater, Ordering.gt_then]

/-- Big-endian numbers of one width are ordered as numbers: by the leading digits, then by the last
one. -/
theorem compareLex_ofNat {width : Nat} (hm : m < 256 ^ width) (hn : n < 256 ^ width) :
    List.compareLex Ord.compare (ofNat width m) (ofNat width n) = Ord.compare m n := by
  induction width generalizing m n with
  | zero =>
      have hzero : m = 0 ∧ n = 0 := by simpa using And.intro hm hn
      rw [hzero.1, hzero.2]
      rfl
  | succ width ih =>
      have hlengths : (ofNat width (m / 256)).length = (ofNat width (n / 256)).length := by
        rw [length_ofNat, length_ofNat]
      have hleading : List.compareLex Ord.compare (ofNat width (m / 256)) (ofNat width (n / 256)) =
          Ord.compare (m / 256) (n / 256) := by
        apply ih
        · exact Nat.div_lt_of_lt_mul (Nat.pow_succ' ▸ hm)
        · exact Nat.div_lt_of_lt_mul (Nat.pow_succ' ▸ hn)
      have hlast : List.compareLex Ord.compare [UInt8.ofNat m] [UInt8.ofNat n] =
          Ord.compare (m % 256) (n % 256) := by
        rw [List.compareLex_cons_cons, List.compareLex_nil_nil, Ordering.then_eq,
          UInt8.compare_eq_toNat_compare_toNat, UInt8.toNat_ofNat', UInt8.toNat_ofNat']
      rw [ofNat, ofNat, compareLex_append hlengths, hleading, hlast, compare_digits]

end Bytes

/-! ## Numbers -/

namespace Wire

variable {m n : Nat}

/-- The first byte of the shortest form: the number itself, or a marker. -/
def lead (n : Nat) : Nat :=
  if n < 253 then n else if n < UInt16.size then 253 else if n < UInt32.size then 254 else 255

theorem lead_mono (h : m ≤ n) : lead m ≤ lead n := by
  unfold lead
  split_ifs <;> omega

theorem lead_lt (n : Nat) : lead n < 256 := by
  unfold lead
  split_ifs <;> omega

theorem writeVar_eq (n : Nat) :
    writeVar n = UInt8.ofNat (lead n) :: Bytes.ofNat (varSize n - 1) n := by
  unfold writeVar lead varSize
  split_ifs <;> rfl

/-- Numbers with one first byte have forms of one width, which holds both. -/
theorem width_of_lead_eq (h : lead m = lead n) (hm : m < 2 ^ 64) (hn : n < 2 ^ 64) :
    m = n ∨ varSize m = varSize n ∧ m < 256 ^ (varSize n - 1) ∧ n < 256 ^ (varSize n - 1) := by
  have htwo : UInt16.size = 256 ^ 2 := rfl
  have hfour : UInt32.size = 256 ^ 4 := rfl
  unfold lead at h
  unfold varSize
  split_ifs at h ⊢ <;> omega

/-- The first bytes decide, unless they are equal; then the two forms have the same width. -/
theorem compareLex_writeVar_append (hm : m < 2 ^ 64) (hn : n < 2 ^ 64) (rest rest' : Bytes) :
    List.compareLex Ord.compare (writeVar m ++ rest) (writeVar n ++ rest') =
      (Ord.compare m n).then (List.compareLex Ord.compare rest rest') := by
  have hfirst : Ord.compare (UInt8.ofNat (lead m)) (UInt8.ofNat (lead n)) =
      Ord.compare (lead m) (lead n) := by
    rw [UInt8.compare_eq_toNat_compare_toNat, UInt8.toNat_ofNat_of_lt' (lead_lt m),
      UInt8.toNat_ofNat_of_lt' (lead_lt n)]
  rw [writeVar_eq, writeVar_eq, List.cons_append, List.cons_append, List.compareLex_cons_cons, hfirst]
  rcases Nat.lt_trichotomy (lead m) (lead n) with hlt | heq | hgt
  · -- A smaller first byte can only come from a smaller number.
    have hless : m < n := Nat.lt_of_not_le fun hle => Nat.not_le_of_lt hlt (lead_mono hle)
    rw [Nat.compare_eq_lt.mpr hlt, Nat.compare_eq_lt.mpr hless, Ordering.lt_then, Ordering.lt_then]
  · rw [Nat.compare_eq_eq.mpr heq, Ordering.eq_then]
    rcases width_of_lead_eq heq hm hn with rfl | ⟨hwidth, hm, hn⟩
    · -- A number below the markers is its own first byte, and no digits follow.
      have hdigits : List.compareLex Ord.compare (Bytes.ofNat (varSize m - 1) m)
          (Bytes.ofNat (varSize m - 1) m) = .eq := Std.ReflCmp.compare_self
      rw [Bytes.compareLex_append rfl, hdigits, Nat.compare_eq_eq.mpr rfl]
    · have hlengths : (Bytes.ofNat (varSize n - 1) m).length =
          (Bytes.ofNat (varSize n - 1) n).length := by
        rw [Bytes.length_ofNat, Bytes.length_ofNat]
      rw [hwidth, Bytes.compareLex_append hlengths, Bytes.compareLex_ofNat hm hn]
  · have hgreater : n < m := Nat.lt_of_not_le fun hle => Nat.not_le_of_lt hgt (lead_mono hle)
    rw [Nat.compare_eq_gt.mpr hgt, Nat.compare_eq_gt.mpr hgreater, Ordering.gt_then, Ordering.gt_then]

end Wire

/-! ## Components -/

namespace Component

variable {a b : Component}

instance : Std.TransCmp compare :=
  inferInstanceAs (Std.TransCmp (compareLex (compareOn fun c : Component => c.type.toNat)
    (compareLex (compareOn fun c : Component => c.value.length) (compareOn Component.value))))

instance : Std.LawfulEqCmp compare where
  compare_self := Std.ReflCmp.compare_self
  eq_of_compare {a b} h := by
    obtain ⟨htype, hvalue⟩ := Ordering.then_eq_eq.mp h
    have hsame : a.value = b.value := Std.LawfulEqCmp.eq_of_compare (Ordering.then_eq_eq.mp hvalue).2
    exact Component.ext (UInt16.toNat_inj.mp (Nat.compare_eq_eq.mp htype)) hsame

/-- Type and length are ordered as numbers; values of one length, byte by byte. -/
theorem compareLex_encode_append (ha : a.value.length < 2 ^ 64) (hb : b.value.length < 2 ^ 64)
    (rest rest' : Bytes) :
    List.compareLex Ord.compare (a.encode ++ rest) (b.encode ++ rest') =
      (compare a b).then (List.compareLex Ord.compare rest rest') := by
  have htype (c : Component) : c.type.toNat < 2 ^ 64 := Nat.lt_trans c.type.toNat_lt (by decide)
  have hencode (c : Component) (rest : Bytes) : c.encode ++ rest =
      Wire.writeVar c.type.toNat ++ (Wire.writeVar c.value.length ++ (c.value ++ rest)) := by
    rw [encode, Wire.Element.write_eq, List.append_assoc, List.append_assoc]
    rfl
  rw [hencode, hencode, Wire.compareLex_writeVar_append (htype a) (htype b),
    Wire.compareLex_writeVar_append ha hb, compare, Ordering.then_assoc, Ordering.then_assoc]
  by_cases hlength : a.value.length = b.value.length
  · rw [Bytes.compareLex_append hlength]
  · -- The lengths differ, so neither value is looked at.
    cases hcompare : Ord.compare a.value.length b.value.length with
    | eq => exact absurd (Nat.compare_eq_eq.mp hcompare) hlength
    | lt | gt => rfl

theorem compare_eq_wire (ha : a.value.length < 2 ^ 64) (hb : b.value.length < 2 ^ 64) :
    compare a b = List.compareLex Ord.compare a.encode b.encode := by
  have hwire := compareLex_encode_append ha hb [] []
  rw [List.append_nil, List.append_nil, List.compareLex_nil_nil, Ordering.then_eq] at hwire
  exact hwire.symm

/-- By induction along both sequences. One that ends first is a beginning of the other. -/
theorem compareLex_flatMap_encode {as bs : List Component}
    (ha : ∀ c ∈ as, c.value.length < 2 ^ 64) (hb : ∀ c ∈ bs, c.value.length < 2 ^ 64) :
    List.compareLex compare as bs =
      List.compareLex Ord.compare (as.flatMap encode) (bs.flatMap encode) := by
  induction as generalizing bs with
  | nil =>
      cases bs with
      | nil => rfl
      | cons b bs =>
          -- A component takes at least one byte, so the bytes of the other sequence end first too.
          obtain ⟨first, rest, hencode⟩ := List.exists_cons_of_ne_nil b.encode_ne_nil
          rw [List.flatMap_cons, hencode]
          rfl
  | cons a as ih =>
      cases bs with
      | nil =>
          obtain ⟨first, rest, hencode⟩ := List.exists_cons_of_ne_nil a.encode_ne_nil
          rw [List.flatMap_cons, hencode]
          rfl
      | cons b bs =>
          obtain ⟨ha, has⟩ := List.forall_mem_cons.mp ha
          obtain ⟨hb, hbs⟩ := List.forall_mem_cons.mp hb
          rw [List.compareLex_cons_cons, ih has hbs, List.flatMap_cons, List.flatMap_cons,
            compareLex_encode_append ha hb]

end Component

/-! ## Names -/

namespace Name

variable {a b : Name}

instance : Std.TransOrd Component :=
  inferInstanceAs (Std.TransCmp Component.compare)

instance : Std.TransCmp compare :=
  inferInstanceAs (Std.TransCmp (compareOn components))

instance : Std.LawfulEqCmp compare where
  compare_self := Std.ReflCmp.compare_self
  eq_of_compare h := Name.ext (Std.LawfulEqCmp.eq_of_compare h)

theorem compare_eq_wire (ha : ∀ c ∈ a.components, c.value.length < 2 ^ 64)
    (hb : ∀ c ∈ b.components, c.value.length < 2 ^ 64) :
    compare a b = List.compareLex Ord.compare a.encodeValue b.encodeValue :=
  Component.compareLex_flatMap_encode ha hb

/-- By induction along the topic, whose components are equal to those of the name. -/
theorem compareLex_of_beginning {as bs : List Component} (hbegins : as <+: bs) (hne : as ≠ bs) :
    List.compareLex Component.compare as bs = .lt := by
  induction as generalizing bs with
  | nil =>
      cases bs with
      | nil => exact absurd rfl hne
      | cons b bs => rfl
  | cons a as ih =>
      cases bs with
      | nil => cases List.prefix_nil.mp hbegins
      | cons b bs =>
          obtain ⟨rfl, hrest⟩ := List.cons_prefix_cons.mp hbegins
          have hfirst : Component.compare a a = .eq := Std.ReflCmp.compare_self
          rw [List.compareLex_cons_cons, hfirst, Ordering.eq_then]
          exact ih hrest fun hsame => hne (congrArg (List.cons a) hsame)

theorem compare_of_covers {topic name : Name} (hcovers : topic.covers name = true)
    (hne : topic ≠ name) : compare topic name = .lt := by
  apply compareLex_of_beginning (List.isPrefixOf_iff_prefix.mp hcovers)
  intro hsame
  exact hne (Name.ext hsame)

/-- The canonical order of components is the bytewise order of their wire forms, and the canonical order
of names is the bytewise order of the components written one after the other. Both are total orders in
which only equal things compare as equal, and a topic comes before every other name under it. -/
theorem canonical_order :
    (∀ a b : Component, a.value.length < 2 ^ 64 → b.value.length < 2 ^ 64 →
        Component.compare a b = List.compareLex Ord.compare a.encode b.encode) ∧
      (∀ a b : Name, (∀ c ∈ a.components, c.value.length < 2 ^ 64) →
        (∀ c ∈ b.components, c.value.length < 2 ^ 64) →
        compare a b = List.compareLex Ord.compare a.encodeValue b.encodeValue) ∧
      (Std.TransCmp Component.compare ∧ ∀ a b, Component.compare a b = .eq ↔ a = b) ∧
      (Std.TransCmp compare ∧ ∀ a b, compare a b = .eq ↔ a = b) ∧
      ∀ topic name : Name, topic.covers name = true → topic ≠ name → compare topic name = .lt := by
  refine ⟨?_, ?_, ⟨inferInstance, ?_⟩, ⟨inferInstance, ?_⟩, ?_⟩
  · intro a b ha hb
    exact Component.compare_eq_wire ha hb
  · intro a b ha hb
    exact compare_eq_wire ha hb
  · intro a b
    exact Std.LawfulEqCmp.compare_eq_iff_eq
  · intro a b
    exact Std.LawfulEqCmp.compare_eq_iff_eq
  · intro topic name hcovers hne
    exact compare_of_covers hcovers hne

/-- Types around the first marker, with a longer value under the smaller type; and names of which one
goes on in the bytes where the other has a longer value. -/
theorem canonical_order_around_marker :
    let low : Component := ⟨252, [255, 255]⟩
    let high : Component := ⟨253, []⟩
    let deep : Name := ⟨[⟨8, []⟩, ⟨252, []⟩]⟩
    let flat : Name := ⟨[⟨8, [252]⟩]⟩
    List.compareLex Ord.compare low.encode high.encode = .lt ∧
      List.compareLex Ord.compare deep.encodeValue flat.encodeValue = .lt ∧
      compare ⟨[⟨8, []⟩]⟩ deep = .lt := by
  intro low high deep flat
  obtain ⟨hcomponents, hnames, -, -, htopics⟩ := canonical_order
  refine ⟨?_, ?_, htopics ⟨[⟨8, []⟩]⟩ deep (by decide) (by decide)⟩
  · rw [← hcomponents low high (by decide) (by decide)]
    decide
  · rw [← hnames deep flat (by decide) (by decide)]
    decide

end Name

end Bulletin
