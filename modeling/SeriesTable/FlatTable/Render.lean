import SeriesTable.FlatTable.Grid
import SeriesTable.FlatTable.Document

/-
  The text forms of a table, chosen by name.
-/

namespace SeriesTable

/-- The forms that a table can be rendered in. -/
inductive TextForm where
  | json
  | indentedJson
  | csv
  | grid
  deriving DecidableEq, Repr

namespace TextForm

/-- The name that asks for a form. -/
def name : TextForm → String
  | json => "json"
  | indentedJson => "json-pretty"
  | csv => "csv"
  | grid => "table"

/-- The form of a name, in capitals or not. No letter outside ASCII has a small form in one of
these names. -/
def ofName? (s : String) : Option TextForm :=
  match String.ofList (s.toList.map Char.toLower) with
  | "json" => some json
  | "json-pretty" | "jsonpretty" => some indentedJson
  | "csv" => some csv
  | "table" => some grid
  | _ => none

/-- The text that reports an unknown form. -/
def unknownText (s : String) : String := "unknown format: " ++ s

end TextForm

/-- Why a table is not rendered. -/
inductive RenderFault where
  | table (fault : Fault)
  | unknownForm (name : String)
  deriving DecidableEq, Repr

namespace FlatTable

/-- The table in some form. -/
def render (t : FlatTable) : TextForm → String
  | .json => t.json .compact
  | .indentedJson => t.json .indented
  | .csv => t.csv
  | .grid => t.grid

/-- The table in the form of this name. -/
def renderNamed (t : FlatTable) (form : String) : Except RenderFault String :=
  match TextForm.ofName? form with
  | some form => .ok (t.render form)
  | none => .error (.unknownForm form)

end FlatTable

/-- A table in the form of this name, by way of a flat copy. -/
def Tabular.renderNamed {τ : Type} [Tabular τ] (t : τ) (form : String) :
    Except RenderFault String :=
  match FlatTable.ofTable t with
  | .ok flat => flat.renderNamed form
  | .error fault => .error (.table fault)

end SeriesTable
