import SeriesTable.Book
import SeriesTable.Tabular

/-
  Paged tables: a book read as one table. A row is found through the first rows of the pages.
-/

namespace SeriesTable

/-- A book with its column names and kinds and the first row of each page. -/
structure PagedTable where
  book : Book
  names : List String
  kinds : List Kind
  pageStarts : List Nat
  rowCount : Nat
  deriving DecidableEq

namespace PagedTable

/-- The number of rows before each of some pages, counted from `rows` on. -/
def startsFrom (rows : Nat) : List Page → List Nat
  | [] => []
  | p :: ps => rows :: startsFrom (rows + p.rowCount) ps

/-- The table of a book. Its columns are the sources of the book. -/
def ofBook (b : Book) : PagedTable :=
  ⟨b, b.kinds.keys, b.kinds.values, startsFrom 0 b.pages, b.rowCount⟩

/-- The number of pages. -/
def pageCount (t : PagedTable) : Nat := t.pageStarts.length

/-- The page of a row and the row on that page. The page is the last one that starts at or before
the row. -/
def locate (t : PagedTable) (row : Nat) : Except Fault (Nat × Nat) :=
  if row < t.rowCount then
    let page := (t.pageStarts.takeWhile fun first => first ≤ row).length - 1
    .ok (page, row - t.pageStarts.getD page 0)
  else .error (.rowOutOfBounds row t.rowCount)

/-- The page that a row is on. -/
def pageOfRow (t : PagedTable) (row : Nat) : Except Fault Nat := (t.locate row).map (·.1)

/-- The page and the row on it. -/
def localRow (t : PagedTable) (row : Nat) : Except Fault (Page × Nat) := do
  let (page, row) ← t.locate row
  match t.book.pages[page]? with
  | some p => .ok (p, row)
  | none => .error (.misuse (.missingPage page t.book.pages.length))

/-- The table without its book. -/
def clear (_ : PagedTable) : PagedTable := ofBook Book.empty

instance : Tabular PagedTable where
  rowCount t := t.rowCount
  columnCount t := t.names.length
  columnName t col := Tabular.element .column t.names col
  columnIndex t name := Tabular.indexOf t.names name
  columnKind t col := Tabular.element .column t.kinds col
  instant t row := do
    let (p, row) ← t.localRow row
    Tabular.element .row p.instants row
  value t row col := do
    let name ← Tabular.element .column t.names col
    let (p, row) ← t.localRow row
    return ((p.column? name).bind fun c => c.values[row]?).getD .null
  columnValues t col := do t.book.series (← Tabular.element .column t.names col)
  instants t := t.book.instants

end PagedTable

end SeriesTable
