import SeriesTable.Binary.Format

/-
  Counters of what was fetched and served. A counter is a word of sixty-four bits: counts wrap
  around, sums of bytes and of latencies stop at the greatest word.
-/

namespace SeriesTable

/-- What was counted since a service began. -/
structure Counters where
  received : Nat := 0
  rejected : Nat := 0
  bytes : Nat := 0
  partsIssued : Nat := 0
  partsCompleted : Nat := 0
  streamErrors : Nat := 0
  batches : Nat := 0
  blocks : Nat := 0
  mergedRegions : Nat := 0
  stalls : Nat := 0
  timeouts : Nat := 0
  requests : Nat := 0
  latencySum : Nat := 0
  latencyCount : Nat := 0
  deriving DecidableEq, Repr

namespace Counters

/-- A word has this many values, `2^64`. -/
def wordSize : Nat := 18446744073709551616

/-- A count after `n` more. -/
def wrapped (count n : Nat) : Nat := (count + n) % wordSize

/-- A sum after `n` more. -/
def held (sum n : Nat) : Nat := min (sum + n) (wordSize - 1)

/-- A fragment of so many bytes was received. -/
def addFragment (c : Counters) (size : Nat) : Counters :=
  { c with received := wrapped c.received 1, bytes := held c.bytes size }

/-- Fragments were not taken in. -/
def addRejected (c : Counters) (n : Nat) : Counters := { c with rejected := wrapped c.rejected n }

/-- Parts of a request were begun. -/
def addParts (c : Counters) (n : Nat) : Counters :=
  { c with partsIssued := wrapped c.partsIssued n }

/-- A stream was read to its end. -/
def addPartCompleted (c : Counters) : Counters :=
  { c with partsCompleted := wrapped c.partsCompleted 1 }

/-- A stream broke or could not be opened. -/
def addStreamError (c : Counters) : Counters :=
  { c with streamErrors := wrapped c.streamErrors 1 }

/-- Batches were answered by a grouping. -/
def addBatches (c : Counters) (n : Nat) : Counters := { c with batches := wrapped c.batches n }

/-- Polls found nothing. -/
def addStalls (c : Counters) (n : Nat) : Counters := { c with stalls := wrapped c.stalls n }

/-- A request took too long. -/
def addTimeout (c : Counters) : Counters := { c with timeouts := wrapped c.timeouts 1 }

/-- The blocks of a request and how many of its regions are merged. -/
def addResolution (c : Counters) (blocks merged : Nat) : Counters :=
  { c with
    blocks := wrapped c.blocks blocks
    mergedRegions := wrapped c.mergedRegions merged }

/-- A request that was completed after so many seconds and nanoseconds. -/
def addRequest (c : Counters) (seconds nanos : Nat) : Counters :=
  { c with
    requests := wrapped c.requests 1
    latencySum := held c.latencySum ((seconds * 1000000 + nanos / 1000) % wordSize)
    latencyCount := wrapped c.latencyCount 1 }

/-- The average latency in microseconds. -/
def averageLatency (c : Counters) : Nat := c.latencySum / c.latencyCount

/-- The share of rejected fragments as a double-precision word. -/
def rejectionRate (c : Counters) : Nat := Binary.ratio .double c.rejected c.received

end Counters

end SeriesTable
