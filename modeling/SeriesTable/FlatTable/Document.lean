import SeriesTable.FlatTable

/-
  A flat table as a JSON document: the instants, then the columns with name, kind and values.
-/

namespace SeriesTable.FlatTable

/-- A column as an object. -/
def columnJson (style : Json.Style) (depth : Nat) (c : NamedColumn) : String :=
  Json.object style depth
    [("name", Json.quote c.name), ("type", Json.quote c.kind.name),
      ("values", Json.array style (depth + 1) (c.values.map Value.json))]

/-- The table as an object. -/
def json (style : Json.Style) (t : FlatTable) : String :=
  Json.object style 0
    [("timestamps", Json.array style 1 (t.instants.map toString)),
      ("columns", Json.array style 1 (t.columns.map (columnJson style 2)))]

end SeriesTable.FlatTable
