/-
  How a request is to be split: into groups of its sources, into intervals of its time range, or
  both ways.
-/

namespace SeriesTable

/-- What a request is split along. -/
inductive Strategy where
  | whole
  | bySource
  | byTime
  | grid
  deriving DecidableEq, Repr

/-- How messages name a strategy. -/
def Strategy.text : Strategy → String
  | whole => "NONE"
  | bySource => "HORIZONTAL"
  | byTime => "VERTICAL"
  | grid => "GRID"

/-- Which strategy is taken when both the sources and the time range are too large. -/
inductive Policy where
  /-- The grid. -/
  | full
  /-- The grid if it is small enough, otherwise the one axis that needs more parts. -/
  | preferred
  deriving DecidableEq, Repr

namespace Policy

def all : List Policy := [.full, .preferred]

/-- The name that settings use. -/
def name : Policy → String
  | full => "default"
  | preferred => "preferred"

/-- The policy of a name. -/
def ofName? (s : String) : Option Policy := all.find? fun p => p.name = s

end Policy

/-- A strategy with the number of source groups and of time intervals. -/
structure Split where
  strategy : Strategy
  groups : Nat
  intervals : Nat
  deriving DecidableEq, Repr

namespace Split

/-- The request as it is. -/
def whole : Split := ⟨.whole, 1, 1⟩

/-- At most this many parts. -/
def parts (s : Split) : Nat := s.groups * s.intervals

/-- The strategy with its counts. -/
def text (s : Split) : String :=
  s.strategy.text ++ "(" ++ toString s.groups ++ "x" ++ toString s.intervals ++ ")"

/-- No count is zero. -/
def Positive (s : Split) : Prop := s.groups ≠ 0 ∧ s.intervals ≠ 0

/-- An axis that the strategy leaves whole has count one. -/
def Consistent (s : Split) : Prop :=
  match s.strategy with
  | .whole => s.groups = 1 ∧ s.intervals = 1
  | .bySource => s.intervals = 1
  | .byTime => s.groups = 1
  | .grid => True

instance (s : Split) : Decidable s.Positive := inferInstanceAs (Decidable (_ ∧ _))

instance (s : Split) : Decidable s.Consistent := by
  unfold Consistent; cases s.strategy <;> infer_instance

end Split

end SeriesTable
