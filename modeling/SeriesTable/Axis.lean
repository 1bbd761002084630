import SeriesTable.Clock

/-
  Time axes: the instants at which a run of samples was taken, given by a clock or listed one by
  one. Axes are ordered by their first instant and then by how they are given, so that two axes
  compare equal only if they are the same.
-/

namespace SeriesTable

/-- The instants of a run of samples. A list may break the rules of `check`. -/
inductive Axis where
  | clock (c : Clock)
  | list (ts : List Int)
  deriving DecidableEq, Repr

namespace Axis

/-- A list of instants as an axis, refused if it is empty or does not increase. -/
def explicit (ts : List Int) : Except ClockFlaw Axis :=
  if ts = [] then .error .noInstants
  else
    match Instant.firstDescent? ts with
    | some (a, b) => .error (.descent a b)
    | none => .ok (.list ts)

/-- The first instant, zero if there is none. -/
def start : Axis → Int
  | clock c => c.start
  | list ts => ts.headD 0

/-- The last instant, zero if there is none. -/
def stop : Axis → Int
  | clock c => c.stop
  | list ts => ts.getLastD 0

/-- From the first instant to the last. -/
def span (a : Axis) : Span := ⟨a.start, a.stop⟩

/-- The number of instants. -/
def sampleCount : Axis → Nat
  | clock c => c.count
  | list ts => ts.length

/-- All instants in order. -/
def instants : Axis → List Int
  | clock c => c.instants
  | list ts => ts

@[simp] theorem length_instants (a : Axis) : a.instants.length = a.sampleCount := by
  cases a <;> simp [instants, sampleCount]

/-- The axis has instants, and they increase; a clock's always do. -/
def check : Axis → Except ClockFlaw Unit
  | clock _ => .ok ()
  | list ts =>
    if ts = [] then .error .noInstants
    else if (Instant.firstDescent? ts).isSome then .error .disordered
    else .ok ()

/-- How messages name an axis. -/
def text : Axis → String
  | clock c => c.text
  | list ts =>
    "timestamps(start=" ++ Instant.text (ts.headD 0) ++ ", count=" ++ toString ts.length ++ ")"

/-! ## Order -/

/-- Clocks stand before lists with the same first instant. -/
def rank : Axis → Nat
  | clock _ => 0
  | list _ => 1

/-- The period and number of samples of a clock. -/
def pace : Axis → Int × Nat
  | clock c => (c.period, c.count)
  | list _ => (0, 0)

/-- The instants of a list. -/
def listed : Axis → List Int
  | clock _ => []
  | list ts => ts

/-- By first instant; then clocks before lists, clocks by period and number of samples, lists
from instant to instant. -/
protected def compare : Axis → Axis → Ordering :=
  compareLex (compareOn start) <| compareLex (compareOn rank) <|
    compareLex (compareOn fun a => a.pace.1) <| compareLex (compareOn fun a => a.pace.2)
      (compareOn listed)

instance : Ord Axis := ⟨Axis.compare⟩

instance : Std.TransOrd Axis := by
  show Std.TransCmp Axis.compare
  unfold Axis.compare
  infer_instance

theorem compare_eq_iff {a b : Axis} :
    compare a b = .eq ↔ a.start = b.start ∧ a.rank = b.rank ∧ a.pace.1 = b.pace.1 ∧
      a.pace.2 = b.pace.2 ∧ a.listed = b.listed := by
  show Axis.compare a b = .eq ↔ _
  simp only [Axis.compare, compareLex_eq_eq, compareOn, Std.LawfulEqOrd.compare_eq_iff_eq]

instance : Std.LawfulEqOrd Axis where
  eq_of_compare {a b} h := by
    obtain ⟨hs, hr, hp, hn, hl⟩ := compare_eq_iff.mp h
    match a, b with
    | clock c, clock d =>
      cases c; cases d
      simp_all [start, pace]
    | list _, list _ => simp_all [listed]
    | clock _, list _ => simp [rank] at hr
    | list _, clock _ => simp [rank] at hr

end Axis

end SeriesTable
