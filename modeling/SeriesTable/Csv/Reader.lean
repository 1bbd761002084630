import SeriesTable.Csv

/-
  Reading comma-separated text. A comma ends a field and a line feed ends a record. A field that
  starts with a quote runs to the closing quote, with two quotes for one, and commas and line feeds
  in it are data. Text is refused if it ends within a record or if something else than a comma or a
  line feed follows a closing quote.
-/

namespace SeriesTable.Csv

/-- Where the reader stands. -/
inductive Place where
  /-- At the start of a field. -/
  | start
  /-- In a field without quotes. -/
  | plain
  /-- Between quotes. -/
  | quoted
  /-- After a quote that closes the field, unless another one follows. -/
  | closing
  deriving DecidableEq, Repr

/-- What was read so far: the field that the reader is in, the record's fields before it, and the
records before that. -/
structure Reader where
  place : Place
  field : List Char
  record : List (List Char)
  records : List (List (List Char))
  deriving DecidableEq, Repr

namespace Reader

/-- A reader of nothing. -/
def init : Reader := ⟨.start, [], [], []⟩

/-- The reader with a character of the field. -/
def put (r : Reader) (place : Place) (c : Char) : Reader :=
  { r with place, field := r.field ++ [c] }

/-- The reader after the end of a field. -/
def endField (r : Reader) : Reader := ⟨.start, [], r.record ++ [r.field], r.records⟩

/-- The reader after the end of a record. -/
def endRecord (r : Reader) : Reader := ⟨.start, [], [], r.records ++ [r.record ++ [r.field]]⟩

/-- The reader after a character. -/
def step (r : Reader) (c : Char) : Option Reader :=
  if r.place = .quoted then
    if c = '"' then some { r with place := .closing } else some (r.put .quoted c)
  else if c = ',' then some r.endField
  else if c = '\n' then some r.endRecord
  else if r.place = .closing then
    if c = '"' then some (r.put .quoted c) else none
  else if r.place = .start ∧ c = '"' then some { r with place := .quoted }
  else some (r.put .plain c)

/-- The records, if the last one has ended. -/
def result (r : Reader) : Option (List (List (List Char))) :=
  if r.place = .start ∧ r.record = [] then some r.records else none

end Reader

/-- The records of a text, each with the texts of its fields. -/
def read (s : String) : Option (List (List String)) := do
  let r ← s.toList.foldlM Reader.step Reader.init
  let records ← r.result
  return records.map fun record => record.map String.ofList

end SeriesTable.Csv
