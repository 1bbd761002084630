import SeriesTable.Fault
import SeriesTable.Json.Node

/-
  A span as a JSON record of its ends. Reading does not ask for the ends to be in order.
-/

namespace SeriesTable.Span

/-- The JSON text of a span. -/
def json (s : Span) : String :=
  Json.object .compact 0 [("start", toString s.start), ("end", toString s.stop)]

/-- The span that a document holds. -/
def ofNode? (n : Json.Node) : Option Span := do
  match ← n.record? ["start", "end"] with
  | [start, stop] => return ⟨← start.integer?, ← stop.integer?⟩
  | _ => none

/-- The span that a JSON text holds. -/
def ofJson (s : String) : Except Fault Span :=
  match (Json.Node.ofText? s).bind ofNode? with
  | some span => .ok span
  | none => .error (.serialization s)

end SeriesTable.Span
