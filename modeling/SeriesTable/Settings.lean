import SeriesTable.Fault
import SeriesTable.Grouping

/-
  Settings: how requests are split, fragments grouped and streams read, and how long a request may
  take. Defaults stand with the fields; `Settings.check` names the first field that is out of
  bounds.
-/

namespace SeriesTable

/-- A length of time. -/
structure Duration where
  seconds : Nat
  nanos : Nat
  deriving DecidableEq, Repr

namespace Settings

/-- The greatest number of sixty-four bits. -/
def greatestWord : Nat := 18446744073709551615

/-- The unit of the time limit. -/
inductive TimeUnit where
  | nanoseconds
  | microseconds
  | milliseconds
  | seconds
  | minutes
  | hours
  deriving DecidableEq, Repr

namespace TimeUnit

def all : List TimeUnit :=
  [.nanoseconds, .microseconds, .milliseconds, .seconds, .minutes, .hours]

/-- The name that settings use. -/
def name : TimeUnit → String
  | nanoseconds => "nanoseconds"
  | microseconds => "microseconds"
  | milliseconds => "milliseconds"
  | seconds => "seconds"
  | minutes => "minutes"
  | hours => "hours"

/-- The short name that variables may use. -/
def abbreviation : TimeUnit → String
  | nanoseconds => "ns"
  | microseconds => "us"
  | milliseconds => "ms"
  | seconds => "s"
  | minutes => "m"
  | hours => "h"

/-- The unit of a name. -/
def ofName? (s : String) : Option TimeUnit := all.find? fun u => u.name = s

/-- So many parts of a second, of which there are `perSecond`. -/
def fraction (perSecond amount : Nat) : Duration :=
  ⟨amount / perSecond, amount % perSecond * (1000000000 / perSecond)⟩

/-- So many times some seconds, at most the greatest word of them. -/
def multiple (seconds amount : Nat) : Duration := ⟨min greatestWord (amount * seconds), 0⟩

/-- So many units of time. -/
def duration : TimeUnit → Nat → Duration
  | nanoseconds => fraction 1000000000
  | microseconds => fraction 1000000
  | milliseconds => fraction 1000
  | seconds => multiple 1
  | minutes => multiple 60
  | hours => multiple 3600

end TimeUnit

/-- What happens to the streams of a request that took too long. -/
inductive CancelMode where
  /-- They are asked to stop and given a moment to do so. -/
  | soft
  /-- They are broken off. -/
  | hard
  deriving DecidableEq, Repr

namespace CancelMode

def all : List CancelMode := [.soft, .hard]

/-- The name that settings use. -/
def name : CancelMode → String
  | soft => "soft"
  | hard => "hard"

/-- The mode of a name. -/
def ofName? (s : String) : Option CancelMode := all.find? fun m => m.name = s

end CancelMode

/-- When and how requests are split. -/
structure Splitting where
  enabled : Bool := true
  mostSources : Nat := 100
  longestMillis : Nat := 3600000
  policy : Policy := .full
  deriving DecidableEq, Repr

/-- How streams are read. -/
structure Streams where
  most : Nat := 4
  bufferCapacity : Nat := 1024
  pollMillis : Nat := 500
  batchSize : Nat := 256
  deriving DecidableEq, Repr

/-- How long a request may take. -/
structure Deadline where
  limit : Nat := 30
  unit : TimeUnit := .seconds
  cancelMode : CancelMode := .soft
  deriving DecidableEq, Repr

/-- The time limit. -/
def Deadline.duration (d : Deadline) : Duration := d.unit.duration d.limit

end Settings

/-- All that a caller can set. -/
structure Settings where
  splitting : Settings.Splitting := {}
  grouping : Grouping.Options := {}
  streams : Settings.Streams := {}
  deadline : Settings.Deadline := {}
  deriving DecidableEq, Repr

namespace Settings

/-- More streams than this are never read at once. -/
def mostStreams : Nat := 256

/-- The first field that is out of bounds. -/
def flaw? (s : Settings) : Option SettingsFlaw :=
  if s.splitting.mostSources = 0 then some (.notPositive "max_sources")
  else if s.splitting.longestMillis = 0 then some (.notPositive "max_duration_ms")
  else if s.grouping.threads = 0 then some (.notPositive "max_threads")
  else if s.streams.most = 0 ∨ mostStreams < s.streams.most then
    some (.streamCount s.streams.most mostStreams)
  else if s.streams.bufferCapacity = 0 then some (.notPositive "buffer_capacity")
  else if s.streams.pollMillis = 0 then some (.notPositive "poll_timeout_ms")
  else if s.streams.batchSize = 0 then some (.notPositive "batch_size")
  else if s.deadline.limit = 0 then some (.notPositive "timeout limit")
  else none

/-- Every field is within its bounds. -/
def check (s : Settings) : Except Fault Unit :=
  match s.flaw? with
  | some flaw => .error (.settings flaw)
  | none => .ok ()

/-- There is no file at a path that settings were to be read from. -/
def missingFile (path : String) : Fault :=
  .settings (.unreadable path "No such file or directory (os error 2)")

/-- The longest time range of a part of a request. -/
def longest (s : Settings) : Duration := TimeUnit.milliseconds.duration s.splitting.longestMillis

/-- How long a poll waits for a fragment. -/
def pollTimeout (s : Settings) : Duration := TimeUnit.milliseconds.duration s.streams.pollMillis

end Settings

end SeriesTable
