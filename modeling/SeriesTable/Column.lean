import SeriesTable.Fragment

/-
  Columns: values of one declared kind, some of them missing.
-/

namespace SeriesTable

/-- Values of one kind, in the order of the instants they belong to. -/
structure Column where
  kind : Kind
  values : List Value
  deriving DecidableEq, Repr

namespace Column

/-- A column for a source, refused if its kind is not supported or a value does not fit it. -/
def make (source : String) (kind : Kind) (values : List Value) : Except Fault Column :=
  if ¬ kind.Supported then .error (.unsupportedKind source kind)
  else
    match firstUnfit? kind values with
    | some (value, _) => .error (.malformedFragment source (.unfitColumnValue value kind))
    | none => .ok ⟨kind, values⟩

/-- A column of missing values. -/
def nulls (kind : Kind) (length : Nat) : Column := ⟨kind, List.replicate length .null⟩

/-- The number of values, missing ones included. -/
def length (c : Column) : Nat := c.values.length

@[simp] theorem length_nulls (kind : Kind) (n : Nat) : (nulls kind n).length = n := by
  simp [nulls, length]

/-- The column with a value in a row in which none stands yet. -/
def fill (c : Column) (row : Nat) (v : Value) : Column :=
  if v.isNull then c
  else { c with values := c.values.modify row fun old => if old.isNull then v else old }

/-- The column with values filled into rows, one after another. -/
def fillRows (c : Column) (values : List Value) (rows : List Nat) : Column :=
  (values.zip rows).foldl (fun c e => c.fill e.2 e.1) c

/-- Missing values. -/
def nullCount (c : Column) : Nat := c.values.countP Value.isNull

/-- Bytes that one value is counted with. -/
def valueMemory : Nat := 24

/-- Bytes that the values are counted with. -/
def memory (c : Column) : Nat := c.length * valueMemory

end Column

end SeriesTable
