import Bulletin.Freshness
import Mathlib.Algebra.Group.Nat.Defs

/-!
# Deadlines — timestamps, durations and freshness as arithmetic

The timers of a session and the freshness window of its policy are both stated with clamped sums of
timestamps and truncated durations. This file moves them to natural numbers:

* `Timestamp.after_mono` — a deadline grows with its start and with its duration, clamping included;
* `Window.lifetime_le_horizon`, `Window.lifetime_le_double` — the lifetime is the first of the three
  deadlines;
* `Window.fresh_iff` — the freshness window as two inequalities;
* `Publication.timestamp?_stamped` — a stamped publication carries its stamp.
-/

namespace Bulletin

/-! ## Durations -/

namespace Duration

theorem micros_le {a b : Duration} (h : a.nanos ≤ b.nanos) : a.micros ≤ b.micros :=
  Nat.div_le_div_right h

theorem nanos_lt (d : Duration) : d.nanos < 2 ^ 64 * 10 ^ 9 :=
  d.inRange

theorem nanos_add (a b : Duration) :
    (a + b).nanos = min (a.nanos + b.nanos) (2 ^ 64 * 10 ^ 9 - 1) := rfl

theorem nanos_le_add (a b : Duration) : a.nanos ≤ (a + b).nanos := by
  have ha := a.nanos_lt
  rw [nanos_add]
  omega

theorem nanos_double (d : Duration) :
    d.double.nanos = min (d.nanos + d.nanos) (2 ^ 64 * 10 ^ 9 - 1) := rfl

theorem micros_of_nanos {d : Duration} {n : Nat} (h : d.nanos = 1000 * n) : d.micros = n := by
  rw [micros, h]
  omega

end Duration

/-! ## Deadlines -/

namespace Timestamp

theorem le_iff {a b : Timestamp} : a ≤ b ↔ a.toNat ≤ b.toNat := Iff.rfl

theorem lt_iff {a b : Timestamp} : a < b ↔ a.toNat < b.toNat := Iff.rfl

theorem eq_of_toNat {a b : Timestamp} (h : a.toNat = b.toNat) : a = b := by
  rw [← ofNat_toNat a, h, ofNat_toNat]

theorem toNat_lt (t : Timestamp) : t.toNat < 2 ^ 64 :=
  t.micros.toNat_lt

theorem toNat_ofNat {n : Nat} (h : n < 2 ^ 64) : (ofNat n).toNat = n := by
  rw [toNat, ofNat, UInt64.toNat_ofNat']
  exact Nat.mod_eq_of_lt h

theorem toNat_after (t : Timestamp) (d : Duration) :
    (t.after d).toNat = min (t.toNat + d.micros) (2 ^ 64 - 1) := by
  have hbound : min (t.toNat + d.micros) (2 ^ 64 - 1) < 2 ^ 64 := by omega
  exact toNat_ofNat hbound

theorem after_mono {a b : Timestamp} {d e : Duration} (hstart : a ≤ b)
    (hspan : d.micros ≤ e.micros) : a.after d ≤ b.after e := by
  rw [le_iff] at hstart ⊢
  rw [toNat_after, toNat_after]
  omega

theorem le_after (t : Timestamp) (d : Duration) : t ≤ t.after d := by
  have ht := t.toNat_lt
  rw [le_iff, toNat_after]
  omega

/-- Before the last instant a deadline that has passed was not clamped. -/
theorem add_le_of_after_le {t now : Timestamp} {d : Duration} (h : t.after d ≤ now)
    (hnow : now.toNat < 2 ^ 64 - 1) : t.toNat + d.micros ≤ now.toNat := by
  rw [le_iff, toNat_after] at h
  omega

theorem lt_add_of_lt_after {t now : Timestamp} {d : Duration} (h : now < t.after d) :
    now.toNat < t.toNat + d.micros := by
  rw [lt_iff, toNat_after] at h
  omega

end Timestamp

namespace Window

theorem lifetime_le_horizon (w : Window) : w.lifetime.micros ≤ w.horizon.micros :=
  Duration.micros_le (Duration.nanos_le_add w.lifetime w.skew)

theorem lifetime_le_double (w : Window) : w.lifetime.micros ≤ w.lifetime.double.micros :=
  Duration.micros_le (Duration.nanos_le_add w.lifetime w.lifetime)

/-- A publication is fresh at `now` when `now` lies strictly between its stamp less the skew and its
stamp plus lifetime and skew. -/
theorem fresh_iff {w : Window} {p : Publication} {now : Timestamp} :
    w.fresh p now = true ↔
      p.timestamp.toNat < now.toNat + w.skew.micros ∧
        now.toNat < p.timestamp.toNat + w.lifetime.micros + w.skew.micros := by
  simp only [fresh, expired, ge_iff_le, Bool.not_eq_true', Bool.or_eq_false_iff,
    decide_eq_false_iff_not]
  have hsince : now.since p.timestamp = (now.toNat : Int) - p.timestamp.toNat := rfl
  omega

end Window

/-! ## Stamps -/

theorem Bytes.toNat_ofNat {width n : Nat} (h : n < 256 ^ width) : toNat (ofNat width n) = n := by
  induction width generalizing n with
  | zero =>
      have hzero : n = 0 := by simpa using h
      subst hzero
      rfl
  | succ width ih =>
      have hsmall : n / 256 < 256 ^ width := by
        rw [Nat.pow_succ] at h
        exact Nat.div_lt_of_lt_mul (by omega)
      rw [ofNat, toNat_append_singleton, ih hsmall]
      simp only [UInt8.toNat_ofNat']
      omega

namespace Wire

theorem readInteger_writeInteger {n : Nat} (h : n < 2 ^ 64) :
    readInteger (writeInteger n) = .ok n := by
  unfold writeInteger readInteger
  split
  · rename_i hn
    have hval : Bytes.toNat (Bytes.ofNat 1 n) = n := Bytes.toNat_ofNat (by omega)
    simp [Bytes.length_ofNat, hval]
  split
  · rename_i hn
    have hval : Bytes.toNat (Bytes.ofNat 2 n) = n := Bytes.toNat_ofNat (by omega)
    simp [Bytes.length_ofNat, hval]
  split
  · rename_i hn
    have hval : Bytes.toNat (Bytes.ofNat 4 n) = n := Bytes.toNat_ofNat (by omega)
    simp [Bytes.length_ofNat, hval]
  · have hval : Bytes.toNat (Bytes.ofNat 8 n) = n := Bytes.toNat_ofNat (by omega)
    simp [Bytes.length_ofNat, hval]

end Wire

theorem Component.timestamp?_ofTimestamp (t : Timestamp) :
    (Component.ofTimestamp t).timestamp? = some t := by
  have hread : Wire.readInteger (Wire.writeInteger t.toNat) = .ok t.toNat :=
    Wire.readInteger_writeInteger t.toNat_lt
  simp [Component.timestamp?, Component.ofTimestamp, hread, Timestamp.ofNat_toNat]

namespace Publication

theorem timestamp?_stamped (name : Name) (t : Timestamp) (payload : Bytes) :
    (stamped name t payload).timestamp? = some t := by
  simp [timestamp?, stamped, Name.timestamp?, Name.stamp, Name.append, Name.last?,
    Component.timestamp?_ofTimestamp]

theorem timestamp_of_timestamp? {p : Publication} {t : Timestamp} (h : p.timestamp? = some t) :
    p.timestamp = t := by
  simp [timestamp, h]

end Publication

end Bulletin
