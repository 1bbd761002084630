import SeriesTable.Clock

/-
  A clock at work. Its instants are computed in sixty-four bits, so every number on the way to one
  must be storable; and they are handed out one by one, to whoever calls for the next.
-/

namespace SeriesTable

/-- The number, if sixty-four bits store it. -/
def Instant.stored? (t : Int) : Option Int := if Storable t then some t else none

theorem Instant.stored?_of_storable {t : Int} (h : Storable t) : stored? t = some t := if_pos h

namespace Clock

/-- The last instant, computed in sixty-four bits. -/
def storedStop? (c : Clock) : Option Int := do
  let samples ← Instant.stored? c.count
  let steps ← Instant.stored? (samples - 1)
  let reach ← Instant.stored? (steps * c.period)
  Instant.stored? (c.start + reach)

/-- The instant of sample `i`, computed in sixty-four bits. -/
def storedInstant? (c : Clock) (i : Nat) : Option Int := do
  let steps ← Instant.stored? i
  let offset ← Instant.stored? (steps * c.period)
  Instant.stored? (c.start + offset)

namespace Cursor

/-- A call for the next instant: the answer, and the walk as the call leaves it. At the end there is
no answer and the walk stays where it is. -/
def call (w : Cursor) : Option Int × Cursor :=
  match w.next? with
  | some (t, w) => (some t, w)
  | none => (none, w)

/-- The walk after `k` calls. -/
def after (w : Cursor) : Nat → Cursor
  | 0 => w
  | k + 1 => (w.after k).call.2

theorem next?_eq_some_iff {w v : Cursor} {t : Int} :
    w.next? = some (t, v) ↔ w.passed < w.clock.count ∧ t = w.clock.instant w.passed ∧
      v = ⟨w.clock, w.passed + 1⟩ := by
  simp [next?, instant?, eq_comm]

theorem next?_eq_none_iff {w : Cursor} : w.next? = none ↔ w.clock.count ≤ w.passed := by
  simp [next?, instant?]

theorem remaining_lt {w v : Cursor} {t : Int} (h : w.next? = some (t, v)) :
    v.remaining < w.remaining := by
  obtain ⟨hlt, -, rfl⟩ := next?_eq_some_iff.mp h
  exact Nat.sub_succ_lt_self _ _ hlt

/-- All answers until there is none. -/
def collect (w : Cursor) : List Int :=
  match _ : w.next? with
  | some (t, v) => t :: v.collect
  | none => []
termination_by w.remaining
decreasing_by exact remaining_lt ‹_›

end Cursor

end Clock

end SeriesTable
