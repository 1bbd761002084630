import SeriesTable.Tabular

/-
  Flat tables: one list of instants and one list of values a column, copied from any table.
-/

namespace SeriesTable

namespace FlatTable

/-- A column with its name and kind. -/
structure NamedColumn where
  name : String
  kind : Kind
  values : List Value
  deriving DecidableEq, Repr

end FlatTable

/-- Instants and columns in the order they were given. -/
structure FlatTable where
  instants : List Int
  columns : List FlatTable.NamedColumn
  deriving DecidableEq, Repr

namespace FlatTable

/-- The first column that is too short, too long or named like an earlier one. -/
def check (instants : List Int) (seen : List String) : List NamedColumn → Except Fault Unit
  | [] => .ok ()
  | c :: rest =>
    if c.values.length ≠ instants.length then
      .error (.columnLength c.name (instants.headD 0) instants.length c.values.length)
    else if c.name ∈ seen then .error (.duplicateSource c.name (instants.headD 0))
    else check instants (c.name :: seen) rest

/-- The table of these instants and columns. -/
def make (instants : List Int) (columns : List NamedColumn) : Except Fault FlatTable := do
  check instants [] columns
  return ⟨instants, columns⟩

/-- A copy of a table, read element by element. -/
def ofTable {τ : Type} [Tabular τ] (t : τ) : Except Fault FlatTable := do
  let instants ← (List.range (Tabular.rowCount t)).mapM (Tabular.instant t)
  let columns ← (List.range (Tabular.columnCount t)).mapM fun col => do
    return (⟨← Tabular.columnName t col, ← Tabular.columnKind t col,
      ← Tabular.columnValues t col⟩ : NamedColumn)
  make instants columns

/-- The names of the columns, in their order. -/
def names (t : FlatTable) : List String := t.columns.map NamedColumn.name

instance : Tabular FlatTable where
  rowCount t := t.instants.length
  columnCount t := t.columns.length
  columnName t col := (Tabular.element .column t.columns col).map NamedColumn.name
  columnIndex t name := Tabular.indexOf t.names name
  columnKind t col := (Tabular.element .column t.columns col).map NamedColumn.kind
  instant t row := Tabular.element .row t.instants row
  value t row col := do
    let c ← Tabular.element .column t.columns col
    if row < t.instants.length then return c.values.getD row .null
    else throw (.rowOutOfBounds row t.instants.length)
  columnValues t col := (Tabular.element .column t.columns col).map NamedColumn.values
  instants t := t.instants

end FlatTable

end SeriesTable
