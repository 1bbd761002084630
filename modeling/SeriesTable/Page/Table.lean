import SeriesTable.Page
import SeriesTable.Tabular

/-
  A page as a table: its columns in name order, its rows the instants.
-/

namespace SeriesTable

instance : Tabular Page where
  rowCount p := p.rowCount
  columnCount p := p.columns.size
  columnName p col := Tabular.element .column p.columns.keys col
  columnIndex p name := Tabular.indexOf p.columns.keys name
  columnKind p col := (Tabular.element .column p.columns.values col).map Column.kind
  instant p row := Tabular.element .row p.instants row
  value p row col := do
    Tabular.element .row (← Tabular.element .column p.columns.values col).values row
  columnValues p col := (Tabular.element .column p.columns.values col).map Column.values
  instants p := p.instants

end SeriesTable
