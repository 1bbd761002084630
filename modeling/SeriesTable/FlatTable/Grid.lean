import SeriesTable.FlatTable.Csv

/-
  A flat table drawn with lines for reading: the first rows, right-aligned, and how many more
  there are.
-/

namespace SeriesTable.FlatTable

/-- Rows that are drawn. -/
def drawnRows : Nat := 100

/-- Columns are at least this wide. -/
def leastWidth : Nat := 12

/-- The column of the instants is this wide. -/
def instantWidth : Nat := 20

/-- A character so many times. -/
def repeated (n : Nat) (c : Char) : String := String.ofList (List.replicate n c)

/-- The text on the right of `width` characters. -/
def rightAligned (width : Nat) (s : String) : String := repeated (width - s.length) ' ' ++ s

/-- Room for the name, counted in bytes. -/
def width (c : NamedColumn) : Nat := max c.name.utf8ByteSize leastWidth

/-- A line of cells, each given with its width. -/
def gridLine (cells : List (Nat × String)) : String :=
  String.join (cells.map fun (width, s) => "| " ++ rightAligned width s ++ " ") ++ "|\n"

/-- A line between rows of cells. -/
def gridRule (widths : List Nat) : String :=
  String.join (widths.map fun w => "+" ++ repeated (w + 2) '-') ++ "+\n"

/-- The drawn table, or a note that there is none. -/
def grid (t : FlatTable) : String :=
  if t.instants = [] then "No results"
  else
    let widths := t.columns.map width
    let rule := gridRule (instantWidth :: widths)
    let header := gridLine ((instantWidth, "timestamp") ::
      widths.zip (t.columns.map NamedColumn.name))
    let rows := (t.instants.take drawnRows).zipIdx.map fun (instant, i) =>
      gridLine ((instantWidth, toString instant) :: widths.zip ((t.row i).map Value.text))
    let count := t.instants.length
    let more :=
      if drawnRows < count then "... and " ++ toString (count - drawnRows) ++ " more rows\n" else ""
    rule ++ header ++ rule ++ String.join rows ++ rule ++ more
      ++ "\n" ++ toString count ++ " rows x " ++ toString t.columns.length ++ " columns\n"

end SeriesTable.FlatTable
