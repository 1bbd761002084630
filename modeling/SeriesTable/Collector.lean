import SeriesTable.Grouping.InPlace
import SeriesTable.Handoff
import SeriesTable.Reservation

/-
  Collectors: the fragments polled from a hand-off, gathered into batches for a grouping. A batch
  is handed over when it is full, when a poll finds nothing, and at the end. After a batch with a
  fault nothing more is taken in, but polling goes on.

  Room for a batch is reserved before the first poll. The grouping is in a slot, out of which every
  batch takes it: a batch that is distributed is put to a task of its own, and if that is lost the
  grouping is lost with it.
-/

namespace SeriesTable

/-- The bytes of a fragment's record: name, values and axis with their sizes, kind and size. -/
def Fragment.recordBytes : Nat := 96

/-- The threads that batches are put to. Batches are numbered from zero. -/
structure Threads where
  /-- Why no pool can be built for a batch. -/
  noPool : Nat → Option String
  /-- The report of a batch whose task is lost. -/
  lost : Nat → Option String

/-- A pool can always be built, and no task is lost. -/
def Threads.steady : Threads := ⟨fun _ => none, fun _ => none⟩

/-- What the task that polls the hand-off has so far. -/
structure Collector where
  threads : Threads
  batchSize : Nat
  /-- The grouping, unless it is lost. -/
  slot : Option Grouping
  /-- The fragments that wait for the next batch. -/
  pending : List Fragment
  /-- The first fault of a batch. -/
  fault : Option Fault
  /-- Batches that the grouping has answered. -/
  batches : Nat
  /-- Fragments of faulty batches that were not taken in. -/
  rejected : Nat
  /-- Polls that found nothing. -/
  stalls : Nat

namespace Collector

/-- A collector that has polled nothing. -/
def make (threads : Threads) (options : Grouping.Options) (batchSize : Nat) : Collector :=
  ⟨threads, batchSize, some (Grouping.empty options), [], none, 0, 0, 0⟩

/-- The collector, once it has room for a batch. -/
def start (threads : Threads) (options : Grouping.Options) (batchSize : Nat) : Attempt Collector :=
  .reserving batchSize Fragment.recordBytes (make threads options batchSize)

/-- The fragments that wait for a batch after a poll, and those it hands over. -/
def divide (c : Collector) : Handoff.Poll → List Fragment × List Fragment
  | .fragment f =>
    if c.pending.length + 1 < c.batchSize then (c.pending ++ [f], []) else ([], c.pending ++ [f])
  | .idle | .drained => ([], c.pending)

/-- The collector after a batch of this length, with what the grouping has answered. -/
def settle (c : Collector) (before : Grouping) (length : Nat) :
    EStateM.Result Fault Grouping Unit → Collector
  | .ok () g => { c with slot := some g, batches := c.batches + 1 }
  | .error fault g =>
    { c with
      slot := some g
      fault := c.fault.or (some fault)
      batches := c.batches + 1
      rejected := c.rejected + (length - (g.fragments - before.fragments)) }

/-- The collector after a batch. -/
def hand (c : Collector) (batch : List Fragment) : Collector :=
  if batch.isEmpty then c
  else
    match c.slot with
    | none => { c with fault := c.fault.or (some (.misuse .groupingLost)) }
    | some g =>
      match if Grouping.distributes g.options batch.length then c.threads.lost c.batches
        else none with
      | some report =>
        { c with
          slot := none
          fault := c.fault.or (some (.taskFailed ("batch correlation task: " ++ report))) }
      | none =>
        c.settle g batch.length ((Grouping.insertBatch (c.threads.noPool c.batches) batch).run g)

/-- The collector after a poll. -/
def step (c : Collector) (p : Handoff.Poll) : Collector :=
  let c := if p = .idle then { c with stalls := c.stalls + 1 } else c
  if c.fault.isSome then c
  else
    let (waiting, batch) := c.divide p
    { c with pending := waiting }.hand batch

/-- The grouping of all that was polled, or the first fault. -/
def result (c : Collector) : Except Fault Grouping :=
  match c.fault, c.slot with
  | some fault, _ => .error fault
  | none, some g => .ok g
  | none, none => .error (.misuse .groupingLost)

/-- What a collector makes of its polls, if it has room for a batch. -/
def collect (threads : Threads) (options : Grouping.Options) (batchSize : Nat)
    (polls : List Handoff.Poll) : Attempt Collector :=
  (start threads options batchSize).map (polls.foldl step)

end Collector

end SeriesTable
