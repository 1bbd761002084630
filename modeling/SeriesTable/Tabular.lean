import SeriesTable.Fault

/-
  What every table offers: rows and columns by index, columns by name, whole columns. Indices
  start at zero; one that is out of range and a name that is unknown are refused.
-/

namespace SeriesTable

/-- Random access to rows and columns. The column of instants is apart and has no index. -/
class Tabular (τ : Type) where
  rowCount : τ → Nat
  columnCount : τ → Nat
  columnName : τ → Nat → Except Fault String
  columnIndex : τ → String → Except Fault Nat
  columnKind : τ → Nat → Except Fault Kind
  instant : τ → Nat → Except Fault Int
  value : τ → Nat → Nat → Except Fault Value
  columnValues : τ → Nat → Except Fault (List Value)
  instants : τ → List Int

namespace Tabular

variable {τ : Type} [Tabular τ]

/-- There are no rows. -/
def isEmpty (t : τ) : Bool := rowCount t = 0

/-- The names of all columns, in their order. -/
def columnNames (t : τ) : List String :=
  (List.range (columnCount t)).filterMap fun c => (columnName t c).toOption

/-- The value in a row and a named column. -/
def valueByName (t : τ) (row : Nat) (name : String) : Except Fault Value := do
  value t row (← columnIndex t name)

/-- The values of a row in column order. -/
def rowValues (t : τ) (row : Nat) : Except Fault (List Value) :=
  if row < rowCount t then (List.range (columnCount t)).mapM (value t row)
  else .error (.rowOutOfBounds row (rowCount t))

/-- The values of a named column. -/
def columnValuesByName (t : τ) (name : String) : Except Fault (List Value) := do
  columnValues t (← columnIndex t name)

/-- The element at an index, or the fault that says how many there are. -/
def element {α : Type} (dimension : Dimension) (xs : List α) (i : Nat) : Except Fault α :=
  match xs[i]? with
  | some x => .ok x
  | none => .error (.outOfBounds dimension i xs.length)

/-- The place of a name, or the fault that there is no such column. -/
def indexOf (names : List String) (name : String) : Except Fault Nat :=
  match names.findIdx? fun n => n = name with
  | some i => .ok i
  | none => .error (.noSuchColumn name)

end Tabular

end SeriesTable
