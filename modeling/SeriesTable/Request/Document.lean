import SeriesTable.Request
import SeriesTable.Json.Node

/-
  A request as a JSON record. Reading does not check the request.
-/

namespace SeriesTable.Request

/-- The JSON text of a request. -/
def json (r : Request) : String :=
  Json.object .compact 0
    [("sources", Json.array .compact 1 (r.sources.map Json.quote)), ("begin", toString r.start),
      ("end", toString r.stop)]

/-- The request that a document holds. -/
def ofNode? (n : Json.Node) : Option Request := do
  match ← n.record? ["sources", "begin", "end"] with
  | [sources, start, stop] => return ⟨← sources.strings?, ← start.integer?, ← stop.integer?⟩
  | _ => none

/-- The request that a JSON text holds. -/
def ofJson (s : String) : Except Fault Request :=
  match (Json.Node.ofText? s).bind ofNode? with
  | some request => .ok request
  | none => .error (.serialization s)

end SeriesTable.Request
