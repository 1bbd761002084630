import SeriesTable.Clock.Walk
import SeriesTable.Proofs.Axis.Instants
import SeriesTable.Proofs.Clock.Acceptance

/-
  What is asked once, when a clock is made, holds good for all that is computed of it later. The
  reach is storable, so are all the multiples of the period that lie before it, and so are the
  instants. A walk along the clock has passed `min k count` instants after `k` calls (`after_eq`);
  its answers, its end and what is ahead of it all follow from that.

  Main statement: `make_exact`, for every clock that `make` gives.
-/

namespace SeriesTable.Clock

open Instant (Storable stored? stored?_of_storable)

variable {c : Clock} {i : Nat}

/-! ## Sixty-four bits -/

theorem storable_natCast {n : Nat} (h : n < 2 ^ 63) : Storable n := by
  unfold Storable Instant.least Instant.greatest
  omega

/-- The multiples of the period are bounded by the reach, which was found storable. -/
theorem storable_mul_period (c : Clock) (hi : i < c.count) : Storable (i * c.period) := by
  have hreach := mul_period_le_reach c.period_pos hi
  have hfits : reach c.period c.count ≤ Instant.greatest := c.fits.2.1
  have hnonneg : 0 ≤ (i : Int) * c.period :=
    Int.mul_nonneg (Int.natCast_nonneg i) (Int.le_of_lt c.period_pos)
  unfold Storable Instant.least
  omega

theorem storable_instant (hs : Storable c.start) (hi : i < c.count) : Storable (c.instant i) :=
  (instantsStorable_iff hs c.count_pos c.period_pos).mpr c.fits.2.2 i hi

theorem storedInstant?_eq (hs : Storable c.start) (hlt : c.count < 2 ^ 63) (hi : i < c.count) :
    c.storedInstant? i = some (c.instant i) := by
  have hsteps := stored?_of_storable (storable_natCast (Nat.lt_trans hi hlt))
  have hoffset := stored?_of_storable (c.storable_mul_period hi)
  have hinstant := stored?_of_storable (storable_instant hs hi)
  simp only [storedInstant?, hsteps, hoffset, Option.bind_eq_bind, Option.bind_some]
  exact hinstant

/-- The stop is computed as the last instant is, once the number of samples is one less. -/
theorem storedStop?_eq (hs : Storable c.start) (hlt : c.count < 2 ^ 63) :
    c.storedStop? = some c.stop := by
  have hlast : c.count - 1 < c.count := Nat.sub_lt c.count_pos Nat.one_pos
  have hcast : (c.count : Int) - 1 = (c.count - 1 : Nat) := by
    have := c.count_pos
    omega
  have hsamples := stored?_of_storable (storable_natCast hlt)
  have hrest := storedInstant?_eq hs hlt hlast
  simp only [storedStop?, hsamples, Option.bind_eq_bind, Option.bind_some]
  rw [stop, reach, hcast]
  exact hrest

/-! ## Calls -/

namespace Cursor

theorem call_of_lt {w : Cursor} (h : w.passed < w.clock.count) :
    w.call = (some (w.clock.instant w.passed), ⟨w.clock, w.passed + 1⟩) := by
  rw [call, next?_eq_some_iff.mpr ⟨h, rfl, rfl⟩]

theorem call_of_le {w : Cursor} (h : w.clock.count ≤ w.passed) : w.call = (none, w) := by
  rw [call, next?_eq_none_iff.mpr h]

theorem after_succ (w : Cursor) (k : Nat) : w.after (k + 1) = w.call.2.after k := by
  induction k with
  | zero => rfl
  | succ k ih => rw [after, ih, after]

theorem after_of_le {w : Cursor} (h : w.clock.count ≤ w.passed) (k : Nat) : w.after k = w := by
  induction k with
  | zero => rfl
  | succ k ih => rw [after, ih, call_of_le h]

theorem collect_of_lt {w : Cursor} (h : w.passed < w.clock.count) :
    w.collect = w.clock.instant w.passed :: collect ⟨w.clock, w.passed + 1⟩ := by
  have hnext := next?_eq_some_iff.mpr ⟨h, rfl, rfl⟩
  rw [collect]
  split <;> simp_all

theorem collect_of_le {w : Cursor} (h : w.clock.count ≤ w.passed) : w.collect = [] := by
  have hnext := next?_eq_none_iff.mpr h
  rw [collect]
  split <;> simp_all

/-- What is collected are the instants ahead. -/
theorem collect_eq (w : Cursor) :
    w.collect = (List.range' w.passed w.remaining).map w.clock.instant := by
  induction w using collect.induct with
  | case1 w t v h ih =>
    obtain ⟨hlt, rfl, rfl⟩ := next?_eq_some_iff.mp h
    have hremaining : w.remaining = (w.clock.count - (w.passed + 1)) + 1 := by
      unfold remaining
      omega
    rw [collect_of_lt hlt, ih, hremaining, List.range'_succ]
    rfl
  | case2 w h =>
    have hle := next?_eq_none_iff.mp h
    rw [collect_of_le hle, remaining, Nat.sub_eq_zero_of_le hle]
    rfl

/-- Taking `n` instants is calling `n` times. -/
theorem take_eq (w : Cursor) (n : Nat) : w.take n = (w.collect.take n, w.after n) := by
  induction n generalizing w with
  | zero => rfl
  | succ n ih =>
    by_cases h : w.passed < w.clock.count
    · rw [take, next?_eq_some_iff.mpr ⟨h, rfl, rfl⟩, collect_of_lt h, after_succ, call_of_lt h,
        List.take_succ_cons]
      simp only [ih]
    · have hle := Nat.le_of_not_lt h
      rw [take, next?_eq_none_iff.mpr hle, collect_of_le hle, after_of_le hle]
      rfl

end Cursor

/-- After `k` calls a walk has passed `k` instants, or all. -/
theorem after_eq (c : Clock) (k : Nat) : c.cursor.after k = ⟨c, min k c.count⟩ := by
  induction k with
  | zero => simp [Cursor.after, cursor]
  | succ k ih =>
    rw [Cursor.after, ih]
    by_cases hk : k < c.count
    · have hmin : min k c.count = k := Nat.min_eq_left (Nat.le_of_lt hk)
      rw [hmin, Cursor.call_of_lt (by exact hk), Nat.min_eq_left (by exact hk)]
    · have hle : c.count ≤ k := Nat.le_of_not_lt hk
      rw [Nat.min_eq_right hle, Cursor.call_of_le (Nat.le_refl _),
        Nat.min_eq_right (Nat.le_succ_of_le hle)]

/-- A call that follows `k` others is answered with the instant of sample `k`. -/
theorem call_after (c : Clock) (k : Nat) : (c.cursor.after k).call.1 = c.instant? k := by
  rw [after_eq, instant?]
  split
  · rename_i hk
    rw [Nat.min_eq_left (Nat.le_of_lt hk), Cursor.call_of_lt (by exact hk)]
  · rename_i hk
    rw [Nat.min_eq_right (Nat.le_of_not_lt hk), Cursor.call_of_le (Nat.le_refl _)]

theorem collect_cursor (c : Clock) : c.cursor.collect = c.instants := by
  rw [Cursor.collect_eq, instants, List.range_eq_range']
  rfl

theorem getElem?_instants (c : Clock) (i : Nat) : c.instants[i]? = c.instant? i := by
  rw [instants, List.getElem?_map, instant?]
  split
  · rw [List.getElem?_range ‹_›]
    rfl
  · rw [List.getElem?_eq_none (by rw [List.length_range]; omega)]
    rfl

/-! ## Exactness -/

/-- The instants of the clock are `start + i * period` for `i` below `count`. Sixty-four bits hold
whatever is computed on the way to them, and a walk meets each of them once, in order, and then
nothing more. -/
structure Exact (c : Clock) (start period : Int) (count : Nat) : Prop where
  stop : c.storedStop? = some c.stop
  instant : ∀ i < count, c.storedInstant? i = some (start + i * period) ∧
    c.instant? i = some (start + i * period)
  length : c.cursor.collect.length = count
  increasing : Instant.Increasing c.cursor.collect
  get : ∀ i < count, c.cursor.collect[i]? = some (start + i * period)
  last : c.cursor.collect.getLast? = some c.stop
  /-- The call after `k` others brings what is collected at `k`, and beyond the end nothing. -/
  answer : ∀ k, (c.cursor.after k).call.1 = c.cursor.collect[k]?
  take : ∀ k, c.cursor.take k = (c.cursor.collect.take k, c.cursor.after k)
  /-- The number passed is never taken from a lesser one to tell what is ahead. -/
  remaining : ∀ k, (c.cursor.after k).passed ≤ (c.cursor.after k).clock.count ∧
    (c.cursor.after k).remaining = count - min k count
  ended : ∀ k, (c.cursor.after k).call.1 = none →
    ∀ j, k ≤ j → (c.cursor.after j).call.1 = none

theorem exact_of_storable (hs : Storable c.start) (hlt : c.count < 2 ^ 63) :
    c.Exact c.start c.period c.count where
  stop := storedStop?_eq hs hlt
  instant i hi := ⟨storedInstant?_eq hs hlt hi, if_pos hi⟩
  length := by rw [collect_cursor, length_instants]
  increasing := by
    rw [collect_cursor]
    exact c.instants_increasing
  get i hi := by
    rw [collect_cursor, getElem?_instants]
    exact if_pos hi
  last := by
    rw [collect_cursor]
    exact Axis.getLast?_instants (a := .clock c) c.instants_ne_nil
  answer k := by rw [call_after, collect_cursor, getElem?_instants]
  take k := Cursor.take_eq c.cursor k
  remaining k := by
    rw [after_eq]
    exact ⟨Nat.min_le_right .., rfl⟩
  ended k h j hkj := by
    rw [call_after, instant?] at h ⊢
    split at h
    · cases h
    · exact if_neg (by omega)

/-- Every clock that can be made with a storable start and less than `2 ^ 63` samples is exact, and
as an axis it has the instants that a walk collects, the first and the last of them at the ends of
its span. -/
theorem make_exact {start period : Int} {count : Nat} (hs : Storable start)
    (hlt : count < 2 ^ 63) (h : make start period count = .ok c) :
    c.Exact start period count ∧
    (Axis.clock c).instants = c.cursor.collect ∧
    (Axis.clock c).instants.length = (Axis.clock c).sampleCount ∧
    (Axis.clock c).instants.head? = some (Axis.clock c).span.start ∧
    (Axis.clock c).instants.getLast? = some (Axis.clock c).span.stop := by
  obtain ⟨rfl, rfl, rfl⟩ := parameters_of_make h
  have hne : (Axis.clock c).instants ≠ [] := c.instants_ne_nil
  exact ⟨exact_of_storable hs hlt, c.collect_cursor.symm, Axis.length_instants _,
    Axis.head?_instants hne, Axis.getLast?_instants hne⟩

/-- The clock of the least start and the greatest period, which ends just before zero. -/
theorem make_exact_greatestPeriod :
    Storable Instant.least ∧ 2 < 2 ^ 63 ∧ ∃ c, make Instant.least Instant.greatest 2 = .ok c ∧
      c.Exact Instant.least Instant.greatest 2 ∧ c.cursor.collect[1]? = some (-1) ∧
      (Axis.clock c).instants.length = (Axis.clock c).sampleCount := by
  have hs : Storable Instant.least := by decide
  have hlt : 2 < 2 ^ 63 := by decide
  obtain ⟨c, hc⟩ : ∃ c, make Instant.least Instant.greatest 2 = .ok c :=
    exists_make_iff.mpr ⟨by decide, by decide, by decide⟩
  obtain ⟨hexact, -, hlength, -⟩ := make_exact hs hlt hc
  exact ⟨hs, hlt, c, hc, hexact, hexact.get 1 (by decide), hlength⟩

end SeriesTable.Clock
