import SeriesTable.Proofs.Axis.Instants
import SeriesTable.Proofs.SortedMap.Lookup

/-
  The order of axes. All axes are in it, also lists that `check` refuses: an empty list counts as
  starting at zero, and one that does not increase is read from its first instant on like any other.
  Axes are compared by their starts, and only those that start together by the way they are given
  (`compare_eq`). Two axes compare equal only if they are the same, so a map keyed by axes has one
  entry for each, and lists its entries by their starts (`Keyed`).

  Main statement: `order_lawful`, for any three axes and any edits of a map keyed by axes.
-/

namespace SeriesTable.Axis

/-- The order of axes that start together. Clocks stand before lists; clocks are compared by period
and then by number of samples, lists from instant to instant. -/
def tieBreak : Axis → Axis → Ordering
  | clock c, clock d => (compare c.period d.period).then (compare c.count d.count)
  | clock _, list _ => .lt
  | list _, clock _ => .gt
  | list ts, list us => compare ts us

theorem compare_eq (a b : Axis) :
    compare a b = (compare a.start b.start).then (a.tieBreak b) := by
  show Axis.compare a b = _
  unfold Axis.compare
  match a, b with
  | clock c, clock d => simp [compareLex, compareOn, tieBreak, rank, pace, listed]
  | clock c, list us => rfl
  | list ts, clock d => rfl
  | list ts, list us => simp [compareLex, compareOn, tieBreak, rank, pace, listed]

theorem start_le_of_compare_eq_lt {a b : Axis} (h : compare a b = .lt) : a.start ≤ b.start :=
  start_le_of_compare (by simp [h])

/-! ## Maps -/

/-- However a map keyed by axes has come about, it has one entry for each axis that was put into it
and not dropped since, as if axes were told apart by equality; it lists them by their starts, and a
search in it may turn at any entry. -/
structure Keyed {α : Type} (edits : List (SortedMap.Edit Axis α)) (m : SortedMap Axis α) :
    Prop where
  find? : ∀ a, m.find? a = SortedMap.recorded edits a
  mem_keys : ∀ a, a ∈ m.keys ↔ ∃ x, SortedMap.recorded edits a = some x
  nodup : m.keys.Nodup
  starts : m.keys.Pairwise fun a b => a.start ≤ b.start
  search : ∀ before a x after, m.entries = before ++ (a, x) :: after → ∀ b,
    m.find? b =
      match compare b a with
      | .lt => SortedMap.findIn b before
      | .eq => some x
      | .gt => SortedMap.findIn b after

theorem keyed {α : Type} (edits : List (SortedMap.Edit Axis α)) :
    Keyed edits (SortedMap.edited edits) where
  find? := congrFun (SortedMap.find?_edited edits)
  mem_keys a := by rw [SortedMap.mem_keys_iff, SortedMap.find?_edited]
  nodup := SortedMap.nodup_keys _
  starts := (SortedMap.sorted_keys _).imp start_le_of_compare_eq_lt
  search _ _ _ _ h b := SortedMap.find?_of_entries_eq h b

/-! ## The order -/

/-- The order is total over all axes, checked or not. Axes that compare equal are the same, one that
is less does not start later, and a map keyed by axes keeps and lists them accordingly. -/
theorem order_lawful (a b c : Axis) :
    compare a b = (compare a.start b.start).then (a.tieBreak b) ∧
    compare b a = (compare a b).swap ∧
    ((compare a b).isLE ∨ (compare b a).isLE) ∧
    ((compare a b).isLE → (compare b a).isLE → a = b) ∧
    ((compare a b).isLE → (compare b c).isLE → (compare a c).isLE) ∧
    (compare a b = .lt → compare b c = .lt → compare a c = .lt) ∧
    (compare a b = .eq ↔ a = b) ∧
    (compare a b = .lt → a.start ≤ b.start) ∧
    ∀ {α : Type} (edits : List (SortedMap.Edit Axis α)),
      Keyed edits (SortedMap.edited edits) := by
  have hswap : compare b a = (compare a b).swap := Std.OrientedOrd.eq_swap
  refine ⟨compare_eq a b, hswap, ?_, ?_, Std.TransOrd.isLE_trans, Std.TransCmp.lt_trans,
    Std.LawfulEqOrd.compare_eq_iff_eq, start_le_of_compare_eq_lt, keyed⟩
  · rw [hswap]
    cases compare a b <;> simp
  · intro hab hba
    exact Std.LawfulEqOrd.eq_of_compare (Std.OrientedCmp.isLE_antisymm hab hba)

/-- A clock with its only sample at zero. -/
def oneAtZero : Clock := ⟨0, 1, 1, by decide, by decide, by decide⟩

/-- All three start at zero. Neither list would pass a check. -/
theorem order_lawful_unchecked :
    compare (clock oneAtZero) (list []) = .lt ∧ compare (list []) (list [0, -1]) = .lt ∧
      compare (clock oneAtZero) (list [0, -1]) = .lt := by
  have hclock : compare (clock oneAtZero) (list []) = .lt := by decide
  have hlist : compare (list []) (list [0, -1]) = .lt := by decide
  obtain ⟨-, -, -, -, -, htrans, -⟩ := order_lawful (clock oneAtZero) (list []) (list [0, -1])
  exact ⟨hclock, hlist, htrans hclock hlist⟩

end SeriesTable.Axis
