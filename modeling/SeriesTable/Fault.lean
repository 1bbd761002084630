import SeriesTable.Axis
import SeriesTable.Split
import SeriesTable.Value.Text

/-
  Everything that can go wrong between a request and its table, one constructor a cause, with the
  text that reports it and the family that tells a caller what to do about it.
-/

namespace SeriesTable

/-- Why a fragment or a column is refused. -/
inductive FragmentFlaw where
  | noName
  | noValues
  | badAxis (flaw : ClockFlaw)
  | lengthMismatch (values instants : Nat)
  | unfitValue (value : Value) (index : Nat) (declared : Kind)
  | unfitColumnValue (value : Value) (declared : Kind)
  | reported (text : String)
  deriving DecidableEq, Repr

/-- The text that reports the flaw. -/
def FragmentFlaw.text : FragmentFlaw → String
  | noName => "empty source name"
  | noValues => "empty value list"
  | badAxis flaw => "Invalid sampling clock: " ++ flaw.text
  | lengthMismatch values instants =>
    toString values ++ " values for " ++ toString instants ++ " sample instants"
  | unfitValue value index declared =>
    "value " ++ value.text ++ " at index " ++ toString index
      ++ " does not match declared type " ++ declared.title
  | unfitColumnValue value declared =>
    "value " ++ value.text ++ " does not match column type " ++ declared.title
  | reported text => text

/-- Why a request or a time range is refused. -/
inductive RequestFlaw where
  | noSources
  | emptyRange (start stop : Int)
  | noName
  | repeatedSource (source : String)
  | reversedSpan (start stop : Int)
  | reported (text : String)
  deriving DecidableEq, Repr

/-- The text that reports the flaw. -/
def RequestFlaw.text : RequestFlaw → String
  | noSources => "no sources requested"
  | emptyRange start stop =>
    "empty time range [" ++ Instant.text start ++ ", " ++ Instant.text stop ++ ")"
  | noName => "empty source name"
  | repeatedSource source => "source " ++ source ++ " requested twice"
  | reversedSpan start stop =>
    "Invalid time range: start " ++ toString start ++ " > end " ++ toString stop
  | reported text => text

/-- An operation that its caller must not ask for. -/
inductive Misuse where
  | wrongBlock (source : String) (fragment block : Axis)
  | pageWithoutInstants
  | pageDescent (earlier later : Int)
  | repeatedColumns (start : Int)
  | missingInstant (instant : Int)
  | unpaddedPage (start : Int) (source : String)
  | missingPage (page count : Nat)
  | zeroCount (split : Split)
  | inconsistent (split : Split)
  | zeroGroups
  | tooManyIntervals (duration : Int) (count : Nat)
  | groupingLost
  | reported (text : String)
  deriving DecidableEq, Repr

/-- The text that reports the misuse. -/
def Misuse.text : Misuse → String
  | wrongBlock source fragment block =>
    "fragment for '" ++ source ++ "' on " ++ fragment.text ++ " routed to block on " ++ block.text
  | pageWithoutInstants => "sampled block without timestamps"
  | pageDescent earlier later =>
    "sampled block timestamps not strictly increasing at " ++ toString earlier ++ " -> "
      ++ toString later
  | repeatedColumns start =>
    "block starting at " ++ toString start ++ " has duplicate column names"
  | missingInstant instant => "timestamp " ++ toString instant ++ " missing from unified axis"
  | unpaddedPage start source =>
    "page starting at " ++ toString start ++ " lacks padded column " ++ source
  | missingPage page count =>
    "page " ++ toString page ++ " missing from aggregate of " ++ toString count ++ " pages"
  | zeroCount split => "zero split count in " ++ split.text
  | inconsistent split => "strategy does not match counts in " ++ split.text
  | zeroGroups => "horizontal split into zero groups"
  | tooManyIntervals duration count =>
    "cannot split " ++ toString duration ++ "ns into " ++ toString count ++ " intervals"
  | groupingLost => "correlator lost during batch insert"
  | reported text => text

/-- Why a stream breaks. -/
inductive StreamFlaw where
  | reset (source : String)
  | unopened (source : String)
  | reported (text : String)
  deriving DecidableEq, Repr

/-- The text that reports the flaw. -/
def StreamFlaw.text : StreamFlaw → String
  | reset source => "stream for " ++ source ++ " reset by peer"
  | unopened source => "cannot open " ++ source
  | reported text => text

/-- Why settings are refused. -/
inductive SettingsFlaw where
  | notPositive (setting : String)
  | streamCount (count most : Nat)
  | unreadable (path reason : String)
  | illFormed (reason : String)
  | poolNotBuilt (reason : String)
  | reported (text : String)
  deriving DecidableEq, Repr

/-- How the reason begins when the text of the settings cannot be read. -/
def SettingsFlaw.illFormedText : String := "Failed to parse config: "

/-- The text that reports the flaw. -/
def SettingsFlaw.text : SettingsFlaw → String
  | notPositive setting => setting ++ " must be > 0"
  | streamCount count most =>
    "max_streams " ++ toString count ++ " must be between 1 and " ++ toString most
  | unreadable path reason => "Failed to read config file " ++ path ++ ": " ++ reason
  | illFormed reason => illFormedText ++ reason
  | poolNotBuilt reason => "Failed to build correlator pool: " ++ reason
  | reported text => text

/-- What an index counts. -/
inductive Dimension where
  | row
  | column
  deriving DecidableEq, Repr

/-- How a message begins that reports an index. -/
def Dimension.text : Dimension → String
  | row => "row"
  | column => "column"

/-- A cause of failure. -/
inductive Fault where
  | malformedFragment (source : String) (flaw : FragmentFlaw)
  | unsupportedKind (source : String) (kind : Kind)
  | invalidClock (flaw : ClockFlaw)
  | invalidRequest (flaw : RequestFlaw)
  | duplicateSource (source : String) (start : Int)
  | columnLength (source : String) (start : Int) (expected actual : Nat)
  | kindConflict (source : String) (expected actual : Kind)
  | collision (first second : Span)
  | noSuchColumn (name : String)
  | outOfBounds (dimension : Dimension) (index length : Nat)
  | misuse (flaw : Misuse)
  | timedOut (elapsed completed total : Nat)
  | bufferClosed
  | channelClosed (text : String)
  | stream (flaw : StreamFlaw)
  | taskFailed (text : String)
  | settings (flaw : SettingsFlaw)
  | io (text : String)
  | serialization (text : String)
  deriving DecidableEq, Repr

/-- Families of faults, by what the caller should make of them. -/
inductive Family where
  /-- Not enough time; nothing is known about the data. -/
  | timeout
  /-- The data contradict the model of blocks and tables. -/
  | structural
  /-- A fragment, a clock or a request cannot be taken in. -/
  | malformed
  /-- The caller asked for something that is not there. -/
  | caller
  | other
  deriving DecidableEq, Repr

namespace Fault

/-- A row is asked for of a table with fewer rows. -/
def rowOutOfBounds (index length : Nat) : Fault := .outOfBounds .row index length

/-- A column is asked for of a table with fewer columns. -/
def columnOutOfBounds (index length : Nat) : Fault := .outOfBounds .column index length

/-- The family of a fault. -/
def family : Fault → Family
  | timedOut .. => .timeout
  | duplicateSource .. | columnLength .. | kindConflict .. | collision .. => .structural
  | malformedFragment .. | unsupportedKind .. | invalidClock _ | invalidRequest _ => .malformed
  | noSuchColumn _ | outOfBounds .. | misuse _ => .caller
  | bufferClosed | channelClosed _ | stream _ | taskFailed _ | settings _ | io _
  | serialization _ => .other

/-- The text that reports the fault. -/
def message : Fault → String
  | malformedFragment source flaw =>
    "Malformed fragment for source '" ++ source ++ "': " ++ flaw.text
  | unsupportedKind source kind =>
    "Unsupported value type " ++ kind.title ++ " for source '" ++ source ++ "'"
  | invalidClock flaw => "Invalid sampling clock: " ++ flaw.text
  | invalidRequest flaw => "Invalid query domain: " ++ flaw.text
  | duplicateSource source start =>
    "Duplicate source '" ++ source ++ "' in block starting at " ++ Instant.text start
  | columnLength source start expected actual =>
    "Column '" ++ source ++ "' in block starting at " ++ Instant.text start ++ " has "
      ++ toString actual ++ " values, expected " ++ toString expected
  | kindConflict source expected actual =>
    "Source '" ++ source ++ "' has type " ++ actual.title ++ ", previously seen as "
      ++ expected.title
  | collision first second =>
    "Domain collision between " ++ first.text ++ " and " ++ second.text
  | noSuchColumn name => "No such column: " ++ name
  | outOfBounds dimension index length =>
    dimension.text ++ " index " ++ toString index ++ " out of bounds (len " ++ toString length
      ++ ")"
  | misuse flaw => "Illegal state: " ++ flaw.text
  | timedOut elapsed completed total =>
    "Assembly incomplete after " ++ toString elapsed ++ "ms: " ++ toString completed ++ "/"
      ++ toString total ++ " sub-queries finished"
  | bufferClosed => "Fragment buffer is no longer accepting fragments"
  | channelClosed text => "Channel closed: " ++ text
  | stream flaw => "Stream error: " ++ flaw.text
  | taskFailed text => "Task failed: " ++ text
  | settings flaw => "Configuration error: " ++ flaw.text
  | io text => "IO error: " ++ text
  | serialization text => "Serialization error: " ++ text

end Fault

/-- The span between two instants, refused if they are reversed. -/
def Span.between (start stop : Int) : Except Fault Span :=
  if start > stop then .error (.invalidRequest (.reversedSpan start stop)) else .ok ⟨start, stop⟩

end SeriesTable
