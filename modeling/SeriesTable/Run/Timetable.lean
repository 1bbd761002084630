import SeriesTable.Run

/-
  Timetables: when the parts of a run act if computing takes no time. Time is counted in
  milliseconds from the start of the run. A worker starts when a permit is free, in the order of
  the parts, and waits the feed's delay before every yield of its stream. Between the fragments the
  collector's polls find nothing, one for each poll timeout that passes.
-/

namespace SeriesTable

namespace Timetable

/-- What happens to a worker. -/
inductive Happening where
  /-- It starts; its stream may fail to open. -/
  | start (failing : Bool)
  | fragment
  /-- Its stream ends; it may break. -/
  | finish (failing : Bool)
  deriving DecidableEq, Repr

/-- Something that happens to a worker, and when. -/
structure Event where
  time : Nat
  worker : Nat
  happening : Happening
  deriving DecidableEq, Repr

namespace Event

/-- The worker fails. -/
def isFailure (e : Event) : Bool := e.happening = .start true ∨ e.happening = .finish true

/-- What a run does for an event; after a fragment it polls. -/
def actions (e : Event) : List Run.Action :=
  match e.happening with
  | .start _ => [.enter e.worker, .ask e.worker]
  | .fragment => [.fetch e.worker, .offer e.worker, .deliver e.worker, .poll, .ask e.worker]
  | .finish _ => [.fetch e.worker]

end Event

/-- What a worker does from its start on. -/
def eventsOf (delay worker start : Nat) (stream : Except Fault Stream) : List Event :=
  match stream with
  | .error _ => [⟨start, worker, .start true⟩]
  | .ok s =>
    let yields := (List.range s.fragments.length).map fun k =>
      (⟨start + (k + 1) * delay, worker, .fragment⟩ : Event)
    let finish := start + (s.fragments.length + 1) * delay
    let last : List Event := match s.ending with
      | .exhausted => [⟨finish, worker, .finish false⟩]
      | .broken _ => [⟨finish, worker, .finish true⟩]
      | .never => []
    ⟨start, worker, .start false⟩ :: yields ++ last

/-- When a stream that is started at `start` is done with, if ever. -/
def finishOf (delay start : Nat) : Except Fault Stream → Option Nat
  | .error _ => some start
  | .ok ⟨_, .never⟩ => none
  | .ok ⟨fragments, _⟩ => some (start + (fragments.length + 1) * delay)

/-- The times at which permits become free, without the earliest one. -/
def takeEarliest (free : List Nat) : Option (Nat × List Nat) := do
  let first ← free.min?
  return (first, free.erase first)

/-- The events of all workers, each started with the permit that is free first; a permit that never
becomes free again is lost. -/
def eventsFrom (delay : Nat) : List Nat → Nat → List (Except Fault Stream) → List Event
  | _, _, [] => []
  | free, worker, stream :: rest =>
    match takeEarliest free with
    | none => []
    | some (start, free) =>
      let free := match finishOf delay start stream with
        | some time => time :: free
        | none => free
      eventsOf delay worker start stream ++ eventsFrom delay free (worker + 1) rest

end Timetable

/-- All events of a run in the order of time, those of one moment in the order of the workers. -/
structure Timetable where
  events : List Timetable.Event
  workers : Nat
  delay : Nat
  deriving DecidableEq, Repr

namespace Timetable

/-- The undisturbed course of a run. -/
def ofParts (s : Settings) (feed : Feed) (parts : List Request) : Timetable where
  events :=
    (eventsFrom feed.delay (List.replicate s.streams.most 0) 0 (parts.map feed.stream)).mergeSort
      fun a b => a.time ≤ b.time
  workers := parts.length
  delay := feed.delay

/-- The first failure of a worker. -/
def failure? (t : Timetable) : Option Event := t.events.find? Event.isFailure

/-- When no worker acts any more: at the first failure, or when all streams are exhausted. -/
def settled? (t : Timetable) : Option Nat :=
  match t.failure? with
  | some e => some e.time
  | none =>
    let finishes := t.events.filter fun e => e.happening = .finish false
    if finishes.length = t.workers then some (finishes.foldl (fun m e => max m e.time) 0) else none

/-- The polls that find nothing in some stretch of time. -/
def idlePolls (pollMillis : Nat) (since time : Nat) : Nat × Run.Action :=
  ((time - since) / pollMillis, .poll)

/-- The actions of some events and the polls before each fragment, counted from the time `since`.
With them the time of the last fragment. -/
def scriptOf (pollMillis : Nat) : Nat → List Event → List (Nat × Run.Action) × Nat
  | since, [] => ([], since)
  | since, e :: rest =>
    let actions := e.actions.map fun a => (1, a)
    if e.happening = .fragment then
      let (script, last) := scriptOf pollMillis e.time rest
      (idlePolls pollMillis since e.time :: actions ++ script, last)
    else
      let (script, last) := scriptOf pollMillis since rest
      (actions ++ script, last)

/-- The supervisor's actions once the workers are done or one has failed. -/
def closing (t : Timetable) : List Run.Action :=
  let all := List.range t.workers
  let first := (t.failure?.map fun e => Run.Action.join e.worker).toList
  first ++ all.map .abort ++ all.map .join ++ [.close, .poll, .conclude]

/-- What workers still do when they are asked to stop: one answer of a stream each, if it comes
within the poll timeout. -/
def lateActions (t : Timetable) (limit grace : Nat) : List Run.Action :=
  (List.range t.workers).flatMap fun w =>
    let own := t.events.filter fun e => e.worker = w
    if own.any fun e => e.time < limit then
      match own.find? fun e => limit ≤ e.time with
      | some e => if e.time < limit + grace then [.fetch w, .offer w] else []
      | none => []
    else []

/-- Millisecond steps that a duration takes. -/
def ticks (d : Duration) : Nat := d.seconds * 1000 + (d.nanos + 999999) / 1000000

/-- What happens in a run with these settings. -/
def script (t : Timetable) (s : Settings) : Run.Script :=
  let poll := s.streams.pollMillis
  let limit := ticks s.deadline.duration
  let once (actions : List Run.Action) := actions.map fun a => (1, a)
  match t.settled?.filter fun time => time < limit with
  | some time =>
    let (actions, last) := scriptOf poll 0 (t.events.filter fun e => e.time ≤ time)
    -- The limit passes only if the run has no result by then, with a collector that has ended.
    let late := .expire s.deadline.cancelMode limit
    ⟨actions ++ [idlePolls poll last time] ++ once (t.closing ++ [late]), time⟩
  | none =>
    let (actions, last) := scriptOf poll 0 (t.events.filter fun e => e.time < limit)
    let after := match s.deadline.cancelMode with
      | .soft => .poll :: t.lateActions limit poll ++ [.breakOff]
      | .hard => []
    ⟨actions ++ [idlePolls poll last limit] ++ once (.expire s.deadline.cancelMode limit :: after),
      limit⟩

end Timetable

end SeriesTable
