import SeriesTable.Request.Division

/-
  Planners: how finely a request must be split so that no part has too many sources or lasts too
  long.
-/

namespace SeriesTable

/-- The limits of a part, and the largest grid that the preferring policy takes. -/
structure Planner where
  enabled : Bool
  mostSources : Nat
  /-- In nanoseconds. -/
  longest : Nat
  policy : Policy
  gridLimit : Nat
  mostSources_pos : 0 < mostSources
  longest_pos : 0 < longest

namespace Planner

def nanosPerMilli : Nat := 1000000

/-- The longest storable duration. -/
def longestStorable : Nat := Instant.greatest.toNat

/-- A planner for parts of at most so many sources and milliseconds, and of at least one source
and one nanosecond. It takes no grid that it can avoid. -/
def make (enabled : Bool) (sources millis : Nat) (policy : Policy) : Planner where
  enabled := enabled
  mostSources := max 1 sources
  longest := max 1 (min longestStorable (millis * nanosPerMilli))
  policy := policy
  gridLimit := 0
  mostSources_pos := Nat.le_max_left ..
  longest_pos := Nat.le_max_left ..

/-- The planner with a limit for grids. -/
def withGridLimit (p : Planner) (limit : Nat) : Planner := { p with gridLimit := limit }

/-- The split that a request needs. Where the sources and the range are both too large, the
preferring policy gives up the axis that needs fewer parts unless the grid is within its limit. -/
def plan (p : Planner) (r : Request) (policy : Policy) : Split :=
  let groups := max 1 (runsNeeded r.sources.length p.mostSources)
  let intervals := max 1 (runsNeeded r.duration.toNat p.longest)
  if groups = 1 ∧ intervals = 1 then ⟨.whole, 1, 1⟩
  else if intervals = 1 then ⟨.bySource, groups, 1⟩
  else if groups = 1 then ⟨.byTime, 1, intervals⟩
  else if policy = .full ∨ groups * intervals ≤ p.gridLimit then ⟨.grid, groups, intervals⟩
  else if intervals ≤ groups then ⟨.bySource, groups, 1⟩
  else ⟨.byTime, 1, intervals⟩

/-- The parts that a request is served in. -/
def parts (p : Planner) (r : Request) : Except Fault (List Request) :=
  if p.enabled then r.divide (p.plan r p.policy) else .ok [r]

/-- The same, with what is reserved for the parts. -/
def tryParts (p : Planner) (r : Request) : Attempt (Except Fault (List Request)) :=
  if p.enabled then r.tryDivide (p.plan r p.policy) else .ended (.ok [r])

end Planner

end SeriesTable
