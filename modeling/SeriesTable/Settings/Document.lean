import SeriesTable.Settings
import SeriesTable.Toml.Document

/-
  Settings as TOML text: a table for each section. Reading takes the default for what is missing
  and ignores what it does not know; writing gives every field.
-/

namespace SeriesTable.Settings

/-! ## Reading -/

/-- The values of a section's fields. A section may also be an array of them in order, and one that
is a moment has none of them. -/
def fieldValues? (names : List String) : Toml → Option (List (Option Toml))
  | .table _ fields => some (names.map (Toml.Fields.value? fields))
  | .array items => some ((List.range names.length).map fun i => items[i]?)
  | .tables items => some ((List.range names.length).map fun i => items.reverse[i]?)
  | .moment => some (names.map fun _ => none)
  | _ => none

/-- A field's value, or its default if it is missing. -/
def valueOr {α : Type} (default : α) (read? : Toml → Option α) : Option Toml → Option α
  | none => some default
  | some t => read? t

/-- A truth value. -/
def bool? : Toml → Option Bool
  | .bool b => some b
  | _ => none

/-- An integer that is not negative. -/
def count? : Toml → Option Nat
  | .integer n => if 0 ≤ n then some n.toNat else none
  | _ => none

/-- The value holds nothing. -/
def isHollow : Toml → Bool
  | .array [] | .tables [] | .table _ [] => true
  | _ => false

/-- A name, given as a string or as the only key of a table, with nothing under it. -/
def named? {α : Type} (ofName? : String → Option α) : Toml → Option α
  | .string s => ofName? s
  | .table _ [(s, t)] => if isHollow t then ofName? s else none
  | _ => none

/-- The fields of the section on splitting, in order. -/
def splittingNames : List String := ["enabled", "max_sources", "max_duration_ms", "policy"]

/-- The section on splitting. -/
def Splitting.ofToml? (t : Toml) : Option Splitting := do
  let d : Splitting := {}
  match ← fieldValues? splittingNames t with
  | [enabled, mostSources, longestMillis, policy] =>
    return ⟨← valueOr d.enabled bool? enabled, ← valueOr d.mostSources count? mostSources,
      ← valueOr d.longestMillis count? longestMillis,
      ← valueOr d.policy (named? Policy.ofName?) policy⟩
  | _ => none

/-- The fields of the section on grouping, in order. -/
def groupingNames : List String := ["concurrency_enabled", "pivot_size", "max_threads"]

/-- The section on grouping. -/
def groupingOfToml? (t : Toml) : Option Grouping.Options := do
  let d : Grouping.Options := {}
  match ← fieldValues? groupingNames t with
  | [concurrent, pivot, threads] =>
    return ⟨← valueOr d.concurrent bool? concurrent, ← valueOr d.pivot count? pivot,
      ← valueOr d.threads count? threads⟩
  | _ => none

/-- The fields of the section on streams, in order. -/
def streamsNames : List String :=
  ["max_streams", "buffer_capacity", "poll_timeout_ms", "batch_size"]

/-- The section on streams. -/
def Streams.ofToml? (t : Toml) : Option Streams := do
  let d : Streams := {}
  match ← fieldValues? streamsNames t with
  | [most, capacity, poll, batch] =>
    return ⟨← valueOr d.most count? most, ← valueOr d.bufferCapacity count? capacity,
      ← valueOr d.pollMillis count? poll, ← valueOr d.batchSize count? batch⟩
  | _ => none

/-- The fields of the section on the time limit, in order. -/
def deadlineNames : List String := ["limit", "unit", "cancel_mode"]

/-- The section on the time limit. -/
def Deadline.ofToml? (t : Toml) : Option Deadline := do
  let d : Deadline := {}
  match ← fieldValues? deadlineNames t with
  | [limit, unit, cancelMode] =>
    return ⟨← valueOr d.limit count? limit, ← valueOr d.unit (named? TimeUnit.ofName?) unit,
      ← valueOr d.cancelMode (named? CancelMode.ofName?) cancelMode⟩
  | _ => none

/-- The settings from the table of sections. -/
def ofFields? (fields : Toml.Fields) : Option Settings := do
  return {
    splitting := ← valueOr {} Splitting.ofToml? (Toml.Fields.value? fields "decomposition")
    grouping := ← valueOr {} groupingOfToml? (Toml.Fields.value? fields "correlation")
    streams := ← valueOr {} Streams.ofToml? (Toml.Fields.value? fields "streams")
    deadline := ← valueOr {} Deadline.ofToml? (Toml.Fields.value? fields "timeout") }

/-- The settings that a text holds. -/
def ofText (s : String) : Except Fault Settings :=
  match (Toml.ofText? s).bind ofFields? with
  | some settings => .ok settings
  | none => .error (.settings (.illFormed s))

/-! ## Writing -/

/-- What a field is written with. An integer that TOML cannot store has no text. -/
inductive Written where
  | bool (b : Bool)
  | count (n : Nat)
  | name (s : String)

/-- The text of a field. -/
def Written.text? : Written → Option String
  | bool b => some (if b then "true" else "false")
  | count n => if (n : Int) ≤ Instant.greatest then some (toString n) else none
  | name s => some ("\"" ++ s ++ "\"")

/-- A header and a line for every field. -/
def sectionText? (title : String) (names : List String) (fields : List Written) :
    Option String := do
  let lines ← (names.zip fields).mapM fun (name, w) => do
    return name ++ " = " ++ (← w.text?) ++ "\n"
  return "[" ++ title ++ "]\n" ++ String.join lines

/-- The text of the settings, if every integer has one. -/
def text? (s : Settings) : Option String := do
  let sections := [
    ← sectionText? "decomposition" splittingNames
      [.bool s.splitting.enabled, .count s.splitting.mostSources,
        .count s.splitting.longestMillis, .name s.splitting.policy.name],
    ← sectionText? "correlation" groupingNames
      [.bool s.grouping.concurrent, .count s.grouping.pivot, .count s.grouping.threads],
    ← sectionText? "streams" streamsNames
      [.count s.streams.most, .count s.streams.bufferCapacity, .count s.streams.pollMillis,
        .count s.streams.batchSize],
    ← sectionText? "timeout" deadlineNames
      [.count s.deadline.limit, .name s.deadline.unit.name, .name s.deadline.cancelMode.name]]
  return String.intercalate "\n" sections

/-- The text of the settings, with an empty line between sections. -/
def text (s : Settings) : Except Fault String :=
  match s.text? with
  | some text => .ok text
  | none => .error (.serialization "an integer is too large")

end SeriesTable.Settings
