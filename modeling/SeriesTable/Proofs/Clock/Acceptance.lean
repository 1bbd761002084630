import Mathlib.Algebra.Group.Nat.Defs
import SeriesTable.Clock

/-
  Which clocks exist. A clock needs a sample, a positive period, and a last instant that can be
  stored; but its reach, the distance from the first instant to the last, must be storable too. For
  a clock that starts at zero or later this asks for nothing more. A clock that starts earlier can
  reach further than from zero to the greatest instant, and is then refused as an overflow although
  every one of its instants can be stored (`wide_clock_refused`).

  Main statement: `make_outcome`, for all parameters.
-/

namespace SeriesTable.Clock

open Instant (Storable)

variable {start period : Int} {count : Nat}

/-- Every instant of such a clock can be stored. -/
def InstantsStorable (start period : Int) (count : Nat) : Prop :=
  ∀ i < count, Storable (start + i * period)

instance (start period : Int) (count : Nat) : Decidable (InstantsStorable start period count) :=
  inferInstanceAs (Decidable (∀ i < count, _))

/-! ## The reach -/

/-- No sample is further from the first one than the last. -/
theorem mul_period_le_reach (hp : 0 < period) {i : Nat} (hi : i < count) :
    i * period ≤ reach period count := by
  have hle : (i : Int) ≤ count - 1 := by omega
  exact Int.mul_le_mul_of_nonneg_right hle (Int.le_of_lt hp)

/-- The instants lie between the first and the last one. -/
theorem instantsStorable_iff (hs : Storable start) (hc : 0 < count) (hp : 0 < period) :
    InstantsStorable start period count ↔ start + reach period count ≤ Instant.greatest := by
  constructor
  · intro h
    have hlast := (h (count - 1) (by omega)).2
    have hcast : ((count - 1 : Nat) : Int) = count - 1 := by omega
    rwa [hcast] at hlast
  · intro h i hi
    have hreach := mul_period_le_reach hp hi
    have hnonneg : 0 ≤ (i : Int) * period :=
      Int.mul_nonneg (Int.natCast_nonneg i) (Int.le_of_lt hp)
    exact ⟨by have := hs.1; omega, by omega⟩

/-- From zero on, the last instant is at least as great as the reach. -/
theorem reach_le_of_instantsStorable (hs : Storable start) (hc : 0 < count) (hp : 0 < period)
    (hstart : 0 ≤ start) (h : InstantsStorable start period count) :
    reach period count ≤ Instant.greatest := by
  have hlast := (instantsStorable_iff hs hc hp).mp h
  omega

/-- As many steps as there are storable counts are no obstacle. -/
theorem fits_iff (hs : Storable start) (hlt : count < 2 ^ 63) (hc : 0 < count) (hp : 0 < period) :
    Fits start period count ↔
      InstantsStorable start period count ∧ reach period count ≤ Instant.greatest := by
  have hsteps : (count : Int) - 1 ≤ Instant.greatest := by
    unfold Instant.greatest
    omega
  rw [Fits, and_iff_right hsteps, instantsStorable_iff hs hc hp, and_comm]

/-! ## Acceptance -/

/-- What is asked of the parameters, in the order in which it is asked. -/
theorem make_cases (start period : Int) (count : Nat) :
    (count = 0 ∧ make start period count = .error .noSamples) ∨
    (0 < count ∧ period ≤ 0 ∧ make start period count = .error (.badPeriod period)) ∨
    (0 < count ∧ 0 < period ∧ ¬ Fits start period count ∧
      make start period count = .error (.overflow count period start)) ∨
    (0 < count ∧ 0 < period ∧ Fits start period count ∧
      ∃ c, make start period count = .ok c ∧
        c.start = start ∧ c.period = period ∧ c.count = count) := by
  unfold make
  split
  · exact .inl ⟨‹_›, rfl⟩
  · rename_i hc
    have hc := Nat.pos_of_ne_zero hc
    split
    · exact .inr (.inl ⟨hc, ‹_›, rfl⟩)
    · rename_i hp
      have hp := Int.not_le.mp hp
      split
      · exact .inr (.inr (.inr ⟨hc, hp, ‹_›, _, rfl, rfl, rfl, rfl⟩))
      · exact .inr (.inr (.inl ⟨hc, hp, ‹_›, rfl⟩))

theorem make_eq_noSamples_iff : make start period count = .error .noSamples ↔ count = 0 := by
  rcases make_cases start period count with ⟨hc, h⟩ | ⟨hc, -, h⟩ | ⟨hc, -, -, h⟩ |
    ⟨hc, -, -, c, h, -⟩ <;> rw [h] <;> simp <;> omega

theorem make_eq_badPeriod_iff :
    make start period count = .error (.badPeriod period) ↔ 0 < count ∧ period ≤ 0 := by
  rcases make_cases start period count with ⟨hc, h⟩ | ⟨hc, hp, h⟩ | ⟨-, hp, -, h⟩ |
    ⟨-, hp, -, c, h, -⟩ <;> rw [h] <;> simp <;> omega

theorem make_eq_overflow_iff :
    make start period count = .error (.overflow count period start) ↔
      0 < count ∧ 0 < period ∧ ¬ Fits start period count := by
  rcases make_cases start period count with ⟨hc, h⟩ | ⟨-, hp, h⟩ | ⟨hc, hp, hf, h⟩ |
    ⟨-, -, hf, c, h, -⟩ <;> rw [h]
  · simp [hc]
  · simp [Int.not_lt.mpr hp]
  · simp [hc, hp, hf]
  · simp [hf]

theorem exists_make_iff :
    (∃ c, make start period count = .ok c) ↔
      0 < count ∧ 0 < period ∧ Fits start period count := by
  rcases make_cases start period count with ⟨hc, h⟩ | ⟨-, hp, h⟩ | ⟨-, -, hf, h⟩ |
    ⟨hc, hp, hf, c, h, -⟩ <;> rw [h]
  · simp [hc]
  · simp [Int.not_lt.mpr hp]
  · simp [hf]
  · simp [hc, hp, hf]

theorem parameters_of_make {c : Clock} (h : make start period count = .ok c) :
    c.start = start ∧ c.period = period ∧ c.count = count := by
  rcases make_cases start period count with ⟨-, hm⟩ | ⟨-, -, hm⟩ | ⟨-, -, -, hm⟩ |
    ⟨-, -, -, d, hm, hd⟩ <;> rw [hm] at h <;> cases h
  exact hd

/-- What comes of any storable start, any period and any count of up to sixty-three bits. Parameters
that are otherwise in order are refused if an instant cannot be stored and also if the reach cannot;
for clocks that start at zero or later the instants alone decide. -/
theorem make_outcome (hs : Storable start) (hlt : count < 2 ^ 63) :
    (make start period count = .error .noSamples ↔ count = 0) ∧
    (make start period count = .error (.badPeriod period) ↔ 0 < count ∧ period ≤ 0) ∧
    (make start period count = .error (.overflow count period start) ↔ 0 < count ∧ 0 < period ∧
      (InstantsStorable start period count → Instant.greatest < reach period count)) ∧
    (∀ c, make start period count = .ok c →
      c.start = start ∧ c.period = period ∧ c.count = count) ∧
    ((∃ c, make start period count = .ok c) ↔ 0 < count ∧ 0 < period ∧
      InstantsStorable start period count ∧ reach period count ≤ Instant.greatest) ∧
    (0 ≤ start → ((∃ c, make start period count = .ok c) ↔
      0 < count ∧ 0 < period ∧ InstantsStorable start period count)) := by
  refine ⟨make_eq_noSamples_iff, make_eq_badPeriod_iff, ?_, fun _ => parameters_of_make, ?_, ?_⟩
  · rw [make_eq_overflow_iff]
    refine and_congr_right fun hc => and_congr_right fun hp => ?_
    rw [fits_iff hs hlt hc hp, not_and, Int.not_le]
  · rw [exists_make_iff]
    exact and_congr_right fun hc => and_congr_right fun hp => fits_iff hs hlt hc hp
  · intro hstart
    rw [exists_make_iff]
    refine and_congr_right fun hc => and_congr_right fun hp => ?_
    rw [fits_iff hs hlt hc hp]
    exact and_iff_left_of_imp (reach_le_of_instantsStorable hs hc hp hstart)

/-- The clock through the least instant, minus one and the greatest instant but one. Its reach is
more than there is from zero to the greatest instant. -/
theorem make_outcome_leastStart :
    Storable Instant.least ∧ 3 < 2 ^ 63 ∧
    make Instant.least Instant.greatest 3 = .error (.overflow 3 Instant.greatest Instant.least) :=
  have hs : Storable Instant.least := by decide
  have hlt : 3 < 2 ^ 63 := by decide
  ⟨hs, hlt, (make_outcome hs hlt).2.2.1.mpr ⟨by decide, by decide, fun _ => by decide⟩⟩

/-- A clock with samples, a positive period and storable instants only need not exist. -/
theorem wide_clock_refused :
    ¬ ∀ (start period : Int) (count : Nat), Storable start → Storable period → count < 2 ^ 63 →
      0 < count → 0 < period → InstantsStorable start period count →
      ∃ c, make start period count = .ok c := by
  intro h
  obtain ⟨c, hc⟩ := h Instant.least Instant.greatest 3 (by decide) (by decide) (by decide)
    (by decide) (by decide) (by decide)
  exact absurd (exists_make_iff.mp ⟨c, hc⟩).2.2 (by decide)

end SeriesTable.Clock
