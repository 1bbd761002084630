import SeriesTable.Instant.Calendar

/-
  Closed spans of time. Both ends belong to a span, so two spans that share a single instant
  meet.
-/

namespace SeriesTable

/-- The instants from `start` to `stop`, both included. -/
structure Span where
  start : Int
  stop : Int
  deriving DecidableEq, Repr

namespace Span

instance : Membership Int Span where
  mem s t := s.start ≤ t ∧ t ≤ s.stop

instance (t : Int) (s : Span) : Decidable (t ∈ s) :=
  inferInstanceAs (Decidable (_ ∧ _))

theorem mem_iff {t : Int} {s : Span} : t ∈ s ↔ s.start ≤ t ∧ t ≤ s.stop := Iff.rfl

/-- The span has an instant: its ends are in order. -/
def Ordered (s : Span) : Prop := s.start ≤ s.stop

instance (s : Span) : Decidable s.Ordered := inferInstanceAs (Decidable (_ ≤ _))

/-- Each span starts before the other has ended. -/
def Meets (a b : Span) : Prop := a.start ≤ b.stop ∧ b.start ≤ a.stop

instance (a b : Span) : Decidable (a.Meets b) := inferInstanceAs (Decidable (_ ∧ _))

theorem Meets.symm {a b : Span} (h : a.Meets b) : b.Meets a := ⟨h.2, h.1⟩

/-- The smallest span that covers both. -/
def hull (a b : Span) : Span := ⟨min a.start b.start, max a.stop b.stop⟩

/-- Nanoseconds from start to stop, held at the ends of the storable range. -/
def length (s : Span) : Int := Instant.clamp (s.stop - s.start)

/-- The span of a sequence of instants, `[0, 0]` if it is empty. -/
def ofInstants (ts : List Int) : Span := ⟨ts.headD 0, ts.getLastD 0⟩

/-- Both ends in brackets. -/
def text (s : Span) : String := "[" ++ Instant.text s.start ++ ", " ++ Instant.text s.stop ++ "]"

end Span

end SeriesTable
