import SeriesTable.Run.Timetable
import SeriesTable.Request.Planner
import SeriesTable.PagedTable
import SeriesTable.Counters

/-
  Services: requests in, tables out. A request is split, its parts are fetched in one run, and
  the blocks are resolved into regions and bound into a table. The counters go on from request to
  request.

  `tableAlong` is the plain service. `tryTable` reserves the room that the parts, the hand-off and
  the batches take up, and may find threads and tasks that fail.
-/

namespace SeriesTable

/-- What requests are served with, and what was counted in serving them. -/
structure Service where
  settings : Settings
  feed : Feed
  counters : Counters

namespace Service

/-- A service that has served nothing. The settings must be in order. -/
def make (settings : Settings) (feed : Feed) : Except Fault Service := do
  settings.check
  return ⟨settings, feed, {}⟩

/-- The planner of the settings. A grid is small enough if all its parts can be fetched at
once. -/
def planner (s : Service) : Planner :=
  let limits := s.settings.splitting
  (Planner.make limits.enabled limits.mostSources limits.longestMillis limits.policy).withGridLimit
    s.settings.streams.most

/-- The counters with those of a run. -/
def countRun (c : Counters) (r : Run) : Counters :=
  { c with
    received := Counters.wrapped c.received r.tally.received
    bytes := Counters.held c.bytes r.tally.bytes
    partsCompleted := Counters.wrapped c.partsCompleted r.tally.completed
    streamErrors := Counters.wrapped c.streamErrors r.tally.streamErrors
    batches := Counters.wrapped c.batches r.collector.batches
    rejected := Counters.wrapped c.rejected r.collector.rejected
    stalls := Counters.wrapped c.stalls r.collector.stalls }

/-- The fault is that time ran out. -/
def isTimeout : Except Fault Grouping → Bool
  | .error (.timedOut ..) => true
  | _ => false

/-- A way for the parts of a request to be fetched. -/
abbrev Course := List Request → Run.Script

/-- The course that takes the time that the feed and the settings say. -/
def timely (s : Service) : Course := fun parts =>
  (Timetable.ofParts s.settings s.feed parts).script s.settings

/-- What a run has come to, with the milliseconds that its script takes, and the service with what
the run has counted. -/
def conclude (s : Service) (parts : List Request) (script : Run.Script) (start : Run) :
    Except Fault (Grouping × Nat) × Service :=
  let run := start.play script
  let result := run.result.getD (.error (.taskFailed "the run has no result"))
  let counted := countRun (s.counters.addParts parts.length) run
  let counters := if isTimeout result then counted.addTimeout else counted
  (result.map fun g => (g, script.elapsed), { s with counters })

/-- The fragments of a request, grouped, with the milliseconds that this took, and the service
afterwards. -/
def fetch (s : Service) (course : Course) (r : Request) :
    Except Fault (Grouping × Nat) × Service :=
  match s.planner.parts r with
  | .error fault => (.error fault, s)
  | .ok parts => s.conclude parts (course parts) (Run.start s.settings s.feed parts)

/-- The book of some blocks, and how many of its pages were merged. -/
def bind (blocks : List Block) : Except Fault (Book × Nat) := do
  let resolution := Resolution.ofBlocks blocks
  let book ← Book.ofRegions (← resolution.checked)
  return (book, resolution.mergedCount)

/-- The table of what was fetched, unless the task that builds it is lost, and the service
afterwards. -/
def build (s : Service) (lost : Option String) :
    Except Fault (Grouping × Nat) → Except Fault PagedTable × Service
  | .error fault => (.error fault, s)
  | .ok (g, elapsed) =>
    match lost with
    | some report => (.error (.taskFailed ("table build task: " ++ report)), s)
    | none =>
      match bind g.list with
      | .error fault => (.error fault, s)
      | .ok (book, merged) =>
        let counters := (s.counters.addResolution g.list.length merged).addRequest (elapsed / 1000)
          (elapsed % 1000 * 1000000)
        (.ok (PagedTable.ofBook book), { s with counters })

/-- The table of a request, fetched along a course, if nothing is reserved and no task is lost. -/
def tableAlong (s : Service) (course : Course) (r : Request) :
    Except Fault PagedTable × Service :=
  let (fetched, s) := s.fetch course r
  s.build none fetched

/-! ## What surrounds a service -/

/-- What can fail outside of a service. -/
structure Surroundings where
  threads : Threads
  /-- The report of a task that asked for too much room. -/
  overflow : String
  /-- The report of the task that builds a table, if it is lost. -/
  lostBuild : Option String

/-- The fragments of a request, grouped, unless too much room is asked for on the way. -/
def tryFetch (s : Service) (around : Surroundings) (course : Course) (r : Request) :
    Attempt (Except Fault (Grouping × Nat) × Service) :=
  match s.planner.tryParts r with
  | .brokenOff => .brokenOff
  | .ended (.error fault) => .ended (.error fault, s)
  | .ended (.ok parts) =>
    (Run.tryStart around.threads around.overflow s.settings s.feed parts).map fun run =>
      s.conclude parts (course parts) run

/-- The blocks of a request, fetched along a course. -/
def tryBlocks (s : Service) (around : Surroundings) (course : Course) (r : Request) :
    Attempt (Except Fault (List Block) × Service) :=
  (s.tryFetch around course r).map fun (fetched, s) => (fetched.map fun (g, _) => g.list, s)

/-- The table of a request, fetched along a course. -/
def tryTable (s : Service) (around : Surroundings) (course : Course) (r : Request) :
    Attempt (Except Fault PagedTable × Service) :=
  (s.tryFetch around course r).map fun (fetched, s) => s.build around.lostBuild fetched

end Service

end SeriesTable
