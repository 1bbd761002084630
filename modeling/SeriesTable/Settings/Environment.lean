import SeriesTable.Settings

/-
  Settings from environment variables. A variable whose text cannot be read changes nothing.
-/

namespace SeriesTable.Settings

/-- The values of environment variables, by name. -/
abbrev Environment := String → Option String

/-- A word in decimal, perhaps with a plus sign. -/
def word? (s : String) : Option Nat :=
  let digits := match s.toList with
    | '+' :: rest => rest
    | all => all
  if digits ≠ [] ∧ digits.all Char.isDigit then
    let n := Nat.ofDigitChars 10 digits 0
    if n ≤ greatestWord then some n else none
  else none

/-- A truth value, in small letters only. -/
def truth? : String → Option Bool
  | "true" => some true
  | "false" => some false
  | _ => none

/-- Capital letters do not count in names; only those of ASCII have small forms here. -/
def lowered (s : String) : String := String.ofList (s.toList.map Char.toLower)

/-- A unit by its name or abbreviation. -/
def unit? (s : String) : Option TimeUnit :=
  TimeUnit.all.find? fun u => lowered s = u.name ∨ lowered s = u.abbreviation

/-- A variable's value if it can be read, otherwise what stands already. -/
def override {α : Type} (e : Environment) (name : String) (read? : String → Option α)
    (standing : α) : α :=
  ((e name).bind read?).getD standing

/-- The settings with what the environment sets. The batch size has no variable. -/
def overridden (s : Settings) (e : Environment) : Settings where
  splitting := {
    enabled := override e "ASSEMBLY_DECOMPOSITION_ENABLED" truth? s.splitting.enabled
    mostSources := override e "ASSEMBLY_MAX_SOURCES" word? s.splitting.mostSources
    longestMillis := override e "ASSEMBLY_MAX_DURATION_MS" word? s.splitting.longestMillis
    policy := override e "ASSEMBLY_DECOMPOSITION_POLICY" (Policy.ofName? ∘ lowered)
      s.splitting.policy }
  grouping := {
    concurrent := override e "ASSEMBLY_CORRELATION_CONCURRENCY" truth? s.grouping.concurrent
    pivot := override e "ASSEMBLY_PIVOT_SIZE" word? s.grouping.pivot
    threads := override e "ASSEMBLY_MAX_THREADS" word? s.grouping.threads }
  streams := {
    s.streams with
    most := override e "ASSEMBLY_MAX_STREAMS" word? s.streams.most
    bufferCapacity := override e "ASSEMBLY_BUFFER_CAPACITY" word? s.streams.bufferCapacity
    pollMillis := override e "ASSEMBLY_POLL_TIMEOUT_MS" word? s.streams.pollMillis }
  deadline := {
    limit := override e "ASSEMBLY_TIMEOUT_LIMIT" word? s.deadline.limit
    unit := override e "ASSEMBLY_TIMEOUT_UNIT" unit? s.deadline.unit
    cancelMode := override e "ASSEMBLY_CANCEL_MODE" (CancelMode.ofName? ∘ lowered)
      s.deadline.cancelMode }

end SeriesTable.Settings
