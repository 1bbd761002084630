import SeriesTable.Feed
import SeriesTable.Collector
import SeriesTable.Settings

/-
  Runs: the fetching of one request, as a machine whose parts move one at a time. A worker for each
  part reads its stream and hands the fragments over; a collector polls them; a supervisor waits
  for the workers, breaks off the others when one has failed, and then waits for the collector.
  At any moment the time limit may pass.

  `Run.step?` gives the run after an action, or nothing if the action is not possible. Which
  actions come when is not decided here.
-/

namespace SeriesTable

/-- The state of a worker. -/
inductive Worker where
  /-- Without a permit to open its stream. -/
  | waiting (part : Request)
  /-- About to ask its stream. -/
  | ready (stream : Stream)
  /-- Waiting for its stream. -/
  | asking (stream : Stream)
  /-- About to hand a fragment over. -/
  | holding (f : Fragment) (rest : Stream)
  /-- With the sending end of the hand-off, waiting for room. -/
  | sending (f : Fragment) (rest : Stream)
  /-- Its stream is exhausted. -/
  | finished
  | failed (fault : Fault)
  /-- It saw that the run is cancelled. -/
  | stopped
  /-- It was broken off. -/
  | aborted
  deriving DecidableEq, Repr

namespace Worker

/-- The worker has ended, in one way or another. -/
def isSettled : Worker → Bool
  | finished | failed _ | stopped | aborted => true
  | waiting _ | ready _ | asking _ | holding .. | sending .. => false

/-- The worker takes up one of the permits. -/
def holdsPermit : Worker → Bool
  | ready _ | asking _ | holding .. | sending .. => true
  | waiting _ | finished | failed _ | stopped | aborted => false

end Worker

/-- A worker, and whether the supervisor has heard of its end. -/
structure Task where
  worker : Worker
  joined : Bool
  deriving DecidableEq, Repr

/-- What the workers have counted. -/
structure Tally where
  received : Nat := 0
  bytes : Nat := 0
  completed : Nat := 0
  streamErrors : Nat := 0
  deriving DecidableEq, Repr

/-- The parts of a run and what they have come to. -/
structure Run where
  feed : Feed
  tasks : List Task
  permits : Nat
  handoff : Handoff
  collector : Collector
  /-- The collector polls: it has neither found the end nor been broken off. -/
  collecting : Bool
  /-- Workers are asked to stop. -/
  cancelled : Bool
  /-- Workers are broken off. -/
  aborting : Bool
  /-- The first fault of a worker that the supervisor has heard of. -/
  failure : Option Fault
  result : Option (Except Fault Grouping)
  tally : Tally

namespace Run

/-- A run before its first action. -/
def start (s : Settings) (feed : Feed) (parts : List Request) : Run where
  feed := feed
  tasks := parts.map fun part => ⟨.waiting part, false⟩
  permits := s.streams.most
  handoff := Handoff.make s.streams.bufferCapacity
  collector := Collector.make .steady s.grouping s.streams.batchSize
  collecting := true
  cancelled := false
  aborting := false
  failure := none
  result := none
  tally := {}

/-- A run before its first action, once there is a hand-off. If the collector cannot reserve room
for a batch its task ends with a report, and nothing polls. -/
def tryStart (threads : Threads) (overflow : String) (s : Settings) (feed : Feed)
    (parts : List Request) : Attempt Run :=
  (Handoff.tryMake s.streams.bufferCapacity).map fun handoff =>
    let run := { start s feed parts with handoff }
    match Collector.start threads s.grouping s.streams.batchSize with
    | .ended collector => { run with collector }
    | .brokenOff =>
      let report := Fault.taskFailed ("correlation task: " ++ overflow)
      { run with
        collector := { run.collector with fault := some report }
        collecting := false }

/-- What one part of a run can do at a time. -/
inductive Action where
  /-- A worker takes a permit and opens its stream. -/
  | enter (i : Nat)
  /-- A worker asks its stream, unless the run is cancelled. -/
  | ask (i : Nat)
  /-- A worker's stream answers. -/
  | fetch (i : Nat)
  /-- A worker takes hold of the sending end of the hand-off. -/
  | offer (i : Nat)
  /-- A worker puts its fragment into the hand-off. -/
  | deliver (i : Nat)
  /-- A worker ends because it is broken off. -/
  | abort (i : Nat)
  /-- The supervisor hears of a worker's end. -/
  | join (i : Nat)
  /-- The supervisor, all workers joined, shuts the hand-off. -/
  | close
  /-- The collector polls. -/
  | poll
  /-- The supervisor takes the result once the collector has found the end. -/
  | conclude
  /-- The time limit passes. -/
  | expire (mode : Settings.CancelMode) (elapsed : Nat)
  /-- The workers' time to stop has passed too. -/
  | breakOff
  deriving DecidableEq, Repr

/-- The state of the worker of a part. -/
def worker? (r : Run) (i : Nat) : Option Worker := r.tasks[i]?.map Task.worker

/-- The run with another state of a worker. A worker that settles gives its permit back. -/
def setWorker (r : Run) (i : Nat) (w : Worker) : Run :=
  let freed := match r.worker? i with
    | some old => if old.holdsPermit ∧ ¬ w.holdsPermit then 1 else 0
    | none => 0
  { r with tasks := r.tasks.modify i fun t => { t with worker := w }, permits := r.permits + freed }

/-- The run with one more stream error counted. -/
def countStreamError (r : Run) : Run :=
  { r with tally := { r.tally with streamErrors := r.tally.streamErrors + 1 } }

/-- A worker fails if its stream cannot be opened. -/
def enter? (r : Run) (i : Nat) : Option Run :=
  match r.worker? i with
  | some (.waiting part) =>
    if r.permits = 0 then none
    else
      match r.feed.stream part with
      | .ok s => some ({ r with permits := r.permits - 1 }.setWorker i (.ready s))
      | .error fault => some (r.countStreamError.setWorker i (.failed fault))
  | _ => none

/-- A worker stops, rather than ask, once the run is cancelled. -/
def ask? (r : Run) (i : Nat) : Option Run :=
  match r.worker? i with
  | some (.ready s) => some (r.setWorker i (if r.cancelled then .stopped else .asking s))
  | _ => none

/-- A worker goes by what its stream answers: a fragment, the end or a fault. -/
def fetch? (r : Run) (i : Nat) : Option Run :=
  match r.worker? i with
  | some (.asking s) =>
    match s.next? with
    | some (.fragment f rest) =>
      let tally := { r.tally with
        received := r.tally.received + 1
        bytes := r.tally.bytes + f.size }
      some ({ r with tally }.setWorker i (.holding f rest))
    | some .exhausted =>
      let tally := { r.tally with completed := r.tally.completed + 1 }
      some ({ r with tally }.setWorker i .finished)
    | some (.broken fault) => some (r.countStreamError.setWorker i (.failed fault))
    | none => none
  | _ => none

/-- A worker fails if the hand-off is shut. -/
def offer? (r : Run) (i : Nat) : Option Run :=
  match r.worker? i with
  | some (.holding f rest) =>
    match r.handoff.attachIfActive with
    | .ok handoff => some ({ r with handoff }.setWorker i (.sending f rest))
    | .error fault => some (r.setWorker i (.failed fault))
  | _ => none

/-- A worker waits while there is no room. -/
def deliver? (r : Run) (i : Nat) : Option Run :=
  match r.worker? i with
  | some (.sending f rest) =>
    (r.handoff.send? f).map fun handoff => { r with handoff }.setWorker i (.ready rest)
  | _ => none

/-- A worker that is broken off lets go of the sending end. -/
def abort? (r : Run) (i : Nat) : Option Run :=
  match r.worker? i with
  | some w =>
    if r.aborting ∧ ¬ w.isSettled then
      let handoff := match w with
        | .sending .. => r.handoff.detach
        | _ => r.handoff
      some ({ r with handoff }.setWorker i .aborted)
    else none
  | none => none

/-- The first fault that is heard of breaks off the other workers. -/
def join? (r : Run) (i : Nat) : Option Run :=
  match r.tasks[i]? with
  | some ⟨w, false⟩ =>
    if r.result.isSome ∨ ¬ w.isSettled then none
    else
      let r := { r with tasks := r.tasks.modify i fun t => { t with joined := true } }
      match w, r.failure with
      | .failed fault, none => some { r with failure := some fault, aborting := true }
      | _, _ => some r
  | _ => none

/-- The hand-off is shut once every worker has been heard of. -/
def close? (r : Run) : Option Run :=
  if r.result.isNone ∧ r.tasks.all Task.joined then
    some { r with handoff := r.handoff.shutdown }
  else none

/-- The collector ends with the poll that finds the end. -/
def poll? (r : Run) : Option Run :=
  if r.collecting then
    let (p, handoff) := r.handoff.poll
    some { r with handoff, collector := r.collector.step p, collecting := p ≠ .drained }
  else none

/-- A fault of a worker goes before what the collector has. -/
def conclude? (r : Run) : Option Run :=
  if r.result.isNone ∧ r.tasks.all Task.joined ∧ ¬ r.collecting then
    let result := match r.failure with
      | some fault => .error fault
      | none => r.collector.result
    some { r with result := some result }
  else none

/-- A soft cancellation asks the workers to stop, a hard one breaks everything off. -/
def expire? (r : Run) (mode : Settings.CancelMode) (elapsed : Nat) : Option Run :=
  if r.result.isSome then none
  else
    let late := { r with
      result := some (.error (.timedOut elapsed r.tally.completed r.tasks.length))
      handoff := r.handoff.shutdown }
    match mode with
    | .soft => some { late with cancelled := true }
    | .hard => some { late with aborting := true, collecting := false }

/-- What has not stopped by itself is broken off. -/
def breakOff? (r : Run) : Option Run :=
  if r.cancelled then some { r with aborting := true, collecting := false } else none

/-- The run after an action, if the action is possible. -/
def step? (r : Run) : Action → Option Run
  | .enter i => r.enter? i
  | .ask i => r.ask? i
  | .fetch i => r.fetch? i
  | .offer i => r.offer? i
  | .deliver i => r.deliver? i
  | .abort i => r.abort? i
  | .join i => r.join? i
  | .close => r.close?
  | .poll => r.poll?
  | .conclude => r.conclude?
  | .expire mode elapsed => r.expire? mode elapsed
  | .breakOff => r.breakOff?

/-- The run after an action; one that is not possible changes nothing. -/
def act (r : Run) (a : Action) : Run := (r.step? a).getD r

/-- What is done in a run: actions, each with the number of times it is taken, and the milliseconds
that they take. -/
structure Script where
  steps : List (Nat × Action)
  elapsed : Nat
  deriving DecidableEq, Repr

/-- The run after the actions of a script. -/
def play (r : Run) (script : Script) : Run :=
  script.steps.foldl (fun r (n, a) => Nat.repeat (act · a) n r) r

end Run

end SeriesTable
