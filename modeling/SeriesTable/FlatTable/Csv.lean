import SeriesTable.FlatTable
import SeriesTable.Csv

/-
  A flat table as comma-separated text: a header with the names, then a line for every instant.
  A missing value is an empty field.
-/

namespace SeriesTable.FlatTable

/-- The text of a value; a missing one has none. -/
def cellText : Value → String
  | .null => ""
  | v => v.text

/-- A value as a field. Only strings can need quotes. -/
def cellField : Value → List Char
  | .string s => Csv.field s.toList
  | v => (cellText v).toList

/-- The values of a row. -/
def row (t : FlatTable) (i : Nat) : List Value := t.columns.map fun c => c.values.getD i .null

/-- The line of the names. -/
def csvHeader (t : FlatTable) : List Char :=
  Csv.line ("timestamp".toList :: t.columns.map fun c => Csv.field c.name.toList)

/-- The line of an instant. -/
def csvRow (instant : Int) (values : List Value) : List Char :=
  Csv.line ((toString instant).toList :: values.map cellField)

/-- The table as comma-separated text. -/
def csv (t : FlatTable) : String :=
  String.ofList (t.csvHeader ++ t.instants.zipIdx.flatMap fun (instant, i) =>
    csvRow instant (t.row i))

end SeriesTable.FlatTable
