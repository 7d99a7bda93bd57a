import Bulletin.Proofs.Deadlines
import Mathlib.Algebra.Group.Int.Defs

/-!
# Validity — the times at which a publication is fresh

The freshness test subtracts two timestamps and compares the difference with sums of durations, all of
it in integers. A machine has words instead. This file makes the test a second time, in signed words of
128 bits, where a value that does not fit ends it without an answer:

* `held?` — an integer, if a word holds it;
* `Duration.word` — the microseconds of a duration as a word, with the stand-in for those that do not
  fit;
* `Window.expiredInWords?` — the freshness test in words;
* `Window.expiredInWords?_eq` — it always has an answer, and that of the test in integers;
* `Window.one_exact_window` — the times at which a publication is fresh are those between two bounds.
-/

namespace Bulletin

/-! ## Words -/

/-- An integer, if a signed word of 128 bits holds it. -/
def held? (n : Int) : Option Int :=
  if -2 ^ 127 ≤ n ∧ n < 2 ^ 127 then some n else none

/-- Integers of 100 bits leave room for everything that the freshness test does with them. -/
theorem held?_of_small {n : Int} (h : -2 ^ 100 ≤ n ∧ n ≤ 2 ^ 100) : held? n = some n := by
  refine if_pos ⟨?_, ?_⟩
  · exact Int.le_trans (by decide) h.1
  · exact Int.lt_of_le_of_lt h.2 (by decide)

namespace Duration

/-- The microseconds of a duration as a word; a quarter of the largest word stands in for more
microseconds than a word holds. -/
def word (d : Duration) : Int :=
  (held? d.micros).getD ((2 ^ 127 - 1) / 4)

theorem micros_lt (d : Duration) : d.micros < 2 ^ 84 := by
  have hnanos := d.nanos_lt
  unfold micros
  omega

/-- No duration needs the stand-in. -/
theorem held?_micros (d : Duration) : held? d.micros = some (d.micros : Int) := by
  have hmicros := d.micros_lt
  apply held?_of_small
  omega

theorem word_eq (d : Duration) : d.word = d.micros := by
  rw [word, held?_micros, Option.getD_some]

end Duration

namespace Window

/-- The freshness test in words. Every value on the way has to be held by one, also where the first
comparison would be enough. -/
def expiredInWords? (w : Window) (p : Publication) (now : Timestamp) : Option Bool := do
  let present ← held? now.toNat
  let stamp ← held? p.timestamp.toNat
  let elapsed ← held? (present - stamp)
  let lifetime ← held? w.lifetime.word
  let skew ← held? w.skew.word
  let oldest ← held? (lifetime + skew)
  let youngest ← held? (-skew)
  return decide (elapsed ≥ oldest) || decide (elapsed ≤ youngest)

variable {w : Window} {p : Publication} {now : Timestamp}

/-- Timestamps have 64 bits and durations 84, so nothing on the way needs more than 100. -/
theorem expiredInWords?_eq (w : Window) (p : Publication) (now : Timestamp) :
    w.expiredInWords? p now = some (w.expired p now) := by
  have hnow := now.toNat_lt
  have hstamp := p.timestamp.toNat_lt
  have hlifetime := w.lifetime.micros_lt
  have hskew := w.skew.micros_lt
  have hpresent : held? now.toNat = some (now.toNat : Int) := held?_of_small (by omega)
  have horigin : held? p.timestamp.toNat = some (p.timestamp.toNat : Int) :=
    held?_of_small (by omega)
  have helapsed : held? ((now.toNat : Int) - p.timestamp.toNat) =
      some ((now.toNat : Int) - p.timestamp.toNat) := held?_of_small (by omega)
  have holdest : held? ((w.lifetime.micros : Int) + w.skew.micros) =
      some ((w.lifetime.micros : Int) + w.skew.micros) := held?_of_small (by omega)
  have hyoungest : held? (-(w.skew.micros : Int)) = some (-(w.skew.micros : Int)) :=
    held?_of_small (by omega)
  -- One value after the other: it is held, and the test goes on with it.
  rw [expiredInWords?, w.lifetime.word_eq, w.skew.word_eq, hpresent, Option.bind_eq_bind,
    Option.bind_some, horigin, Option.bind_some, helapsed, Option.bind_some, Duration.held?_micros,
    Option.bind_some, Duration.held?_micros, Option.bind_some, holdest, Option.bind_some, hyoungest,
    Option.bind_some]
  rfl

/-! ## The window -/

theorem expired_eq_false_iff :
    w.expired p now = false ↔
      (p.timestamp.toNat : Int) - w.skew.micros < now.toNat ∧
        (now.toNat : Int) < p.timestamp.toNat + w.lifetime.micros + w.skew.micros := by
  have hfresh : w.expired p now = false ↔ w.fresh p now = true := by simp [fresh]
  rw [hfresh, fresh_iff]
  omega

theorem expired_iff :
    w.expired p now = true ↔
      (now.toNat : Int) ≤ p.timestamp.toNat - w.skew.micros ∨
        (p.timestamp.toNat : Int) + w.lifetime.micros + w.skew.micros ≤ now.toNat := by
  rw [← Bool.not_eq_false, expired_eq_false_iff]
  omega

/-- The freshness test is exact. Made in words it overflows nowhere and needs no stand-in. A
publication is fresh strictly between its timestamp less the skew, and its timestamp plus lifetime and
skew: one interval, so what was fresh and is no more will not be again. With some skew this holds from
the timestamp on, and what has no timestamp is fresh while lifetime and skew last from zero on. -/
theorem one_exact_window (w : Window) (p : Publication) :
    (∀ now, w.expiredInWords? p now = some (w.expired p now)) ∧
      (∀ d : Duration, held? d.micros = some (d.micros : Int)) ∧
      (∀ now : Timestamp, w.expired p now = false ↔
        (p.timestamp.toNat : Int) - w.skew.micros < now.toNat ∧
          (now.toNat : Int) < p.timestamp.toNat + w.lifetime.micros + w.skew.micros) ∧
      (∀ first now later : Timestamp, first ≤ now → now ≤ later →
        (w.expired p first = false → w.expired p later = false → w.expired p now = false) ∧
        (w.expired p first = false → w.expired p now = true → w.expired p later = true)) ∧
      (1 ≤ w.skew.micros → ∀ now later : Timestamp, p.timestamp ≤ now → now ≤ later →
        w.expired p now = true → w.expired p later = true) ∧
      (p.timestamp? = none → ∀ now : Timestamp, 1 ≤ now.toNat →
        (w.expired p now = false ↔ now.toNat < w.lifetime.micros + w.skew.micros)) := by
  refine ⟨w.expiredInWords?_eq p, Duration.held?_micros, fun _ => expired_eq_false_iff, ?_, ?_, ?_⟩
  · intro first now later hnow hlater
    rw [Timestamp.le_iff] at hnow hlater
    simp only [expired_eq_false_iff, expired_iff]
    constructor
    · omega
    · omega
  · intro hskew now later hnow hlater
    rw [Timestamp.le_iff] at hnow hlater
    simp only [expired_iff]
    omega
  · intro hnone now hpositive
    have hzero : p.timestamp.toNat = 0 := by
      rw [Publication.timestamp, hnone]
      rfl
    rw [expired_eq_false_iff, hzero]
    omega

/-- The longest durations around the last instant, where sums need more than 64 bits; and a publication
without a timestamp in a window of three microseconds and a skew of one. -/
theorem one_exact_window_extremes :
    let widest : Window := ⟨.max, .max⟩
    let narrow : Window := ⟨.ofMicros 3, .ofMicros 1⟩
    let last : Publication := .labelled "a" ⟨18446744073709551615⟩
    let bare : Publication := ⟨.root, []⟩
    widest.expiredInWords? last .zero = some false ∧
      1 ≤ narrow.skew.micros ∧ bare.timestamp? = none ∧
      narrow.expired bare ⟨3⟩ = false ∧ narrow.expired bare ⟨4⟩ = true ∧
      (∀ later, (⟨4⟩ : Timestamp) ≤ later → narrow.expired bare later = true) ∧
      narrow.expired last ⟨18446744073709551614⟩ = true ∧
      narrow.expired last ⟨18446744073709551615⟩ = false := by
  intro widest narrow last bare
  obtain ⟨hwords, -, -, -, -, -⟩ := one_exact_window widest last
  obtain ⟨-, -, -, -, hmonotone, hmissing⟩ := one_exact_window narrow bare
  have hskew : 1 ≤ narrow.skew.micros := by decide
  have hlimit : narrow.expired bare ⟨4⟩ = true := by decide
  refine ⟨(hwords .zero).trans (by decide), hskew, rfl, ?_, hlimit, ?_, by decide, by decide⟩
  · exact (hmissing rfl ⟨3⟩ (by decide)).mpr (by decide)
  · exact fun later hlater => hmonotone hskew ⟨4⟩ later (by decide) hlater hlimit

end Window

end Bulletin
