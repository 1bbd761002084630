import SeriesTable.Csv.Reader

/-
  Reading comma-separated text whose lines may end either way: outside quotes a record is ended by a
  line feed, or by a carriage return and a line feed together. A carriage return that no line feed
  follows is data, and so is all that stands between quotes.
-/

namespace SeriesTable.Csv

/-- A reader that holds a carriage return back until it sees what follows. -/
structure Lenient where
  reader : Reader
  held : Bool
  deriving DecidableEq, Repr

namespace Lenient

/-- A reader of nothing that holds nothing back. -/
def init : Lenient := ⟨.init, false⟩

/-- A character after all that was held back. -/
def accept (r : Reader) (c : Char) : Option Lenient :=
  if r.place ≠ .quoted ∧ c = '\r' then some ⟨r, true⟩ else (r.step c).map fun r => ⟨r, false⟩

/-- The reader with the held carriage return as data. -/
def settle (l : Lenient) : Option Reader := if l.held then l.reader.step '\r' else some l.reader

/-- The reader after a character. -/
def step (l : Lenient) (c : Char) : Option Lenient :=
  if l.held ∧ c = '\n' then accept l.reader c else l.settle.bind fun r => accept r c

end Lenient

/-- The records of a text, each with the texts of its fields. -/
def readLenient (s : String) : Option (List (List String)) := do
  let l ← s.toList.foldlM Lenient.step Lenient.init
  let records ← (← l.settle).result
  return records.map fun record => record.map String.ofList

end SeriesTable.Csv
