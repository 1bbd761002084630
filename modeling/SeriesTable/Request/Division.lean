import SeriesTable.Request
import SeriesTable.Reservation

/-
  Dividing a request into parts: into consecutive groups of its sources, into consecutive
  intervals of its time range, or both ways. The parts together ask for what the request asks
  for. A division into intervals reserves room for as many parts (`tryIntervals`), one both ways for
  as many as its counts can give (`tryGrid`).
-/

namespace SeriesTable

/-- The split's counts are positive and fit its strategy. -/
def Split.check (s : Split) : Except Fault Unit :=
  if ¬ s.Positive then .error (.misuse (.zeroCount s))
  else if ¬ s.Consistent then .error (.misuse (.inconsistent s))
  else .ok ()

/-- Consecutive runs of `size` elements, the last one of what is left; a run has at least one
element. -/
def consecutive {α : Type} (size : Nat) : List α → List (List α)
  | [] => []
  | x :: xs => (x :: xs.take (size - 1)) :: consecutive size (xs.drop (size - 1))
termination_by xs => xs.length
decreasing_by exact Nat.lt_succ_of_le (by rw [List.length_drop]; exact Nat.sub_le ..)

/-- The least number of runs of `size` that hold `n`. -/
def runsNeeded (n size : Nat) : Nat := (n + size - 1) / size

namespace Request

/-- At most `count` groups of the sources, as equal in size as consecutive runs allow. -/
def byGroups (r : Request) (count : Nat) : Except Fault (List Request) :=
  if count = 0 then .error (.misuse .zeroGroups)
  else
    let size := max 1 (runsNeeded r.sources.length count)
    .ok ((consecutive size r.sources).map fun group => { r with sources := group })

/-- Interval `i` of `count`, all of the length `step` but the last, which ends the range. -/
def interval (r : Request) (step : Int) (count i : Nat) : Request :=
  let start := r.start + i * step
  { r with start, stop := if i + 1 = count then r.stop else start + step }

/-- `count` intervals of the time range. -/
def byIntervals (r : Request) (count : Nat) : Except Fault (List Request) :=
  if count = 0 ∨ r.duration < count then
    .error (.misuse (.tooManyIntervals r.duration count))
  else .ok ((List.range count).map (r.interval (r.duration / count) count))

/-- Every group of sources over every interval. -/
def byGrid (r : Request) (groups intervals : Nat) : Except Fault (List Request) := do
  let parts ← (← r.byGroups groups).mapM fun part => part.byIntervals intervals
  return parts.flatten

/-- The parts of a split, which must be in order. -/
def divide (r : Request) (s : Split) : Except Fault (List Request) := do
  s.check
  match s.strategy with
  | .whole => return [r]
  | .bySource => r.byGroups s.groups
  | .byTime => r.byIntervals s.intervals
  | .grid => r.byGrid s.groups s.intervals

/-- Bytes that a part takes up in a list. -/
def recordBytes : Nat := 40

/-- The intervals, with room reserved for them once their count is looked at. -/
def tryIntervals (r : Request) (count : Nat) : Attempt (Except Fault (List Request)) :=
  if count = 0 ∨ r.duration < count then .ended (r.byIntervals count)
  else .reserving count recordBytes (r.byIntervals count)

/-- The grid, with room reserved for the product of the counts before they are looked at. The
product stays at the greatest count; there may be far fewer parts. -/
def tryGrid (r : Request) (groups intervals : Nat) : Attempt (Except Fault (List Request)) :=
  .reserving (min mostCount (groups * intervals)) recordBytes (r.byGrid groups intervals)

/-- The parts of a split, with what is reserved for them. -/
def tryDivide (r : Request) (s : Split) : Attempt (Except Fault (List Request)) :=
  match s.check, s.strategy with
  | .ok (), .byTime => r.tryIntervals s.intervals
  | .ok (), .grid => r.tryGrid s.groups s.intervals
  | _, _ => .ended (r.divide s)

end Request

end SeriesTable
