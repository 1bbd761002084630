import SeriesTable.Column
import SeriesTable.SortedMap

/-
  Blocks: the columns of all sources that were sampled on one axis. A block holds a source once,
  and every column has one value for each instant of the axis.
-/

namespace SeriesTable

/-- Columns over one axis, in the order of their names. -/
structure Block where
  axis : Axis
  columns : SortedMap String Column
  deriving DecidableEq

namespace Block

/-- A block of no columns yet. -/
def empty (axis : Axis) : Block := ⟨axis, ∅⟩

/-- The first instant. -/
def start (b : Block) : Int := b.axis.start

/-- From the first instant to the last. -/
def span (b : Block) : Span := b.axis.span

/-- The number of values in each column. -/
def sampleCount (b : Block) : Nat := b.axis.sampleCount

/-- The instants of the axis, which all columns share. -/
def instants (b : Block) : List Int := b.axis.instants

/-- The sources with a column, in order. -/
def sources (b : Block) : List String := b.columns.keys

/-- The column of a source. -/
def column? (b : Block) (source : String) : Option Column := b.columns.find? source

/-- There is a column of the source. -/
def hasSource (b : Block) (source : String) : Bool := b.columns.contains source

/-- The block with one more column. -/
def addColumn (b : Block) (source : String) (c : Column) : Except Fault Block :=
  if c.length ≠ b.sampleCount then
    .error (.columnLength source b.start b.sampleCount c.length)
  else if b.hasSource source then .error (.duplicateSource source b.start)
  else .ok { b with columns := b.columns.insert source c }

/-- The block with a fragment's values as one more column. -/
def addFragment (b : Block) (f : Fragment) : Except Fault Block :=
  if f.axis ≠ b.axis then .error (.misuse (.wrongBlock f.source f.axis b.axis))
  else if b.hasSource f.source then .error (.duplicateSource f.source b.start)
  else do b.addColumn f.source (← Column.make f.source f.kind f.values)

/-- Bytes held: the names and the values. -/
def memory (b : Block) : Nat :=
  b.columns.entries.foldr (fun (name, c) n => name.utf8ByteSize + c.memory + n) 0

end Block

end SeriesTable
