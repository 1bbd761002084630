import SeriesTable.Span

/-
  Sampling clocks: equally spaced instants, given by the first one, the period and the number of
  samples. A clock exists only if its last instant can be stored, and `Clock.make` says why one
  does not.
-/

namespace SeriesTable

/-- Why a clock or a list of instants is refused. -/
inductive ClockFlaw where
  | noSamples
  | badPeriod (period : Int)
  | overflow (count : Nat) (period start : Int)
  | noInstants
  | descent (earlier later : Int)
  | disordered
  | reported (text : String)
  deriving DecidableEq, Repr

/-- The text that reports the flaw. -/
def ClockFlaw.text : ClockFlaw → String
  | noSamples => "sample count must be >= 1"
  | badPeriod period => "sampling period must be > 0, got " ++ toString period ++ "ns"
  | overflow count period start =>
    toString count ++ " samples of " ++ toString period ++ "ns from " ++ toString start
      ++ " overflow the timestamp range"
  | noInstants => "explicit timestamp list is empty"
  | descent earlier later =>
    "explicit timestamps not strictly increasing at " ++ toString earlier ++ " -> "
      ++ toString later
  | disordered => "explicit timestamps not strictly increasing"
  | reported text => text

namespace Clock

/-- Nanoseconds from the first of `count` samples to the last. -/
def reach (period : Int) (count : Nat) : Int := (count - 1) * period

/-- The number of steps, the reach and the last instant can each be stored. -/
def Fits (start period : Int) (count : Nat) : Prop :=
  (count : Int) - 1 ≤ Instant.greatest ∧ reach period count ≤ Instant.greatest ∧
    start + reach period count ≤ Instant.greatest

instance (start period : Int) (count : Nat) : Decidable (Fits start period count) :=
  inferInstanceAs (Decidable (_ ∧ _ ∧ _))

end Clock

/-- `count` samples from `start` on, `period` nanoseconds apart. -/
structure Clock where
  start : Int
  period : Int
  count : Nat
  count_pos : 0 < count
  period_pos : 0 < period
  fits : Clock.Fits start period count
  deriving DecidableEq, Repr

namespace Clock

/-- The clock with these parameters, or why there is none. -/
def make (start period : Int) (count : Nat) : Except ClockFlaw Clock :=
  if hc : count = 0 then .error .noSamples
  else if hp : period ≤ 0 then .error (.badPeriod period)
  else if hf : Fits start period count then
    .ok ⟨start, period, count, Nat.pos_of_ne_zero hc, Int.not_le.mp hp, hf⟩
  else .error (.overflow count period start)

/-- The instant of sample `i`. -/
def instant (c : Clock) (i : Nat) : Int := c.start + i * c.period

/-- The last instant. -/
def stop (c : Clock) : Int := c.start + reach c.period c.count

/-- From the first instant to the last. -/
def span (c : Clock) : Span := ⟨c.start, c.stop⟩

/-- The instant of sample `i`, if there is one. -/
def instant? (c : Clock) (i : Nat) : Option Int := if i < c.count then some (c.instant i) else none

/-- All instants in order. -/
def instants (c : Clock) : List Int := (List.range c.count).map c.instant

@[simp] theorem length_instants (c : Clock) : c.instants.length = c.count := by simp [instants]

/-- A walk along a clock's instants that has passed the first `passed` of them. -/
structure Cursor where
  clock : Clock
  passed : Nat
  deriving DecidableEq, Repr

/-- A walk from the first instant on. -/
def cursor (c : Clock) : Cursor := ⟨c, 0⟩

namespace Cursor

/-- The next instant and the walk beyond it. -/
def next? (w : Cursor) : Option (Int × Cursor) :=
  (w.clock.instant? w.passed).map fun t => (t, { w with passed := w.passed + 1 })

/-- Instants still ahead. -/
def remaining (w : Cursor) : Nat := w.clock.count - w.passed

/-- The next instants, at most `n`, and the walk beyond them. -/
def take : Nat → Cursor → List Int × Cursor
  | 0, w => ([], w)
  | n + 1, w =>
    match w.next? with
    | none => ([], w)
    | some (t, w) =>
      let (ts, w) := take n w
      (t :: ts, w)

end Cursor

/-- How messages name a clock. -/
def text (c : Clock) : String :=
  "clock(start=" ++ Instant.text c.start ++ ", period=" ++ toString c.period ++ "ns, count="
    ++ toString c.count ++ ")"

end Clock

end SeriesTable
