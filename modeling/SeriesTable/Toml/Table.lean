/-
  TOML values, and how statements build up a table: assignments to dotted keys, headers of tables
  and headers of arrays of tables. Each table remembers how it came to be, since that decides
  what may still be added to it.
-/

namespace SeriesTable

namespace Toml

/-- How a table came to be. -/
inductive Form where
  /-- Written in braces; nothing can be added. -/
  | braced
  /-- Opened by a header of its own. -/
  | header
  /-- Passed through by the header of a table inside it. -/
  | passed
  /-- Passed through by the dotted key of an assignment. -/
  | dotted
  deriving DecidableEq, Repr

end Toml

/-- A value. Of a moment and of a number with a point only the kind is kept, since no setting
holds them. The tables of an array opened by headers are in reverse. -/
inductive Toml where
  | string (s : String)
  | integer (n : Int)
  | bool (b : Bool)
  | float
  | moment
  | array (items : List Toml)
  | tables (items : List Toml)
  | table (form : Toml.Form) (fields : List (String × Toml))
  deriving Inhabited

namespace Toml

/-- Keys with their values, in the order they were added. -/
abbrev Fields := List (String × Toml)

namespace Fields

/-- The value at a key. -/
def value? (fields : Fields) (key : String) : Option Toml :=
  (List.find? (fun f => f.1 = key) fields).map (·.2)

/-- The fields with another value at a key that they have. -/
def update (fields : Fields) (key : String) (t : Toml) : Fields :=
  fields.map fun f => if f.1 = key then (key, t) else f

/-- The fields with one more at the end. -/
def push (fields : Fields) (key : String) (t : Toml) : Fields := fields ++ [(key, t)]

/-- An assignment. Of a dotted key, the tables on the way must not have a header or braces of
their own, and the one that takes the value must have been made by dotted keys. -/
def assign? (fields : Fields) (value : Toml) : List String → Option Fields
  | [] => none
  | [key] => if (fields.value? key).isSome then none else some (fields.push key value)
  | key :: rest =>
    match fields.value? key with
    | none => do return fields.push key (.table .dotted (← assign? [] value rest))
    | some (.table form inner) =>
      if form = .dotted ∨ (form = .passed ∧ rest.length ≠ 1) then do
        return fields.update key (.table form (← assign? inner value rest))
      else none
    | some (.tables (.table form inner :: earlier)) =>
      if rest.length ≠ 1 then do
        return fields.update key (.tables (.table form (← assign? inner value rest) :: earlier))
      else none
    | some _ => none

/-- The table at the end of a path changed by `f`, and the tables on the way made if they are
missing. An array of tables is entered at its latest table. -/
def within? (f : Fields → Option Fields) : List String → Fields → Option Fields
  | [], fields => f fields
  | key :: rest, fields =>
    match fields.value? key with
    | none => do return fields.push key (.table .passed (← within? f rest []))
    | some (.table form inner) =>
      if form = .braced then none
      else do return fields.update key (.table form (← within? f rest inner))
    | some (.tables (.table form inner :: earlier)) => do
      return fields.update key (.tables (.table form (← within? f rest inner) :: earlier))
    | some _ => none

/-- The header of a table, which must be new or only passed through so far. -/
def open? (key : String) (fields : Fields) : Option Fields :=
  match fields.value? key with
  | none => some (fields.push key (.table .header []))
  | some (.table .passed inner) => some (fields.update key (.table .header inner))
  | some _ => none

/-- The header of one more table of an array. -/
def openNext? (key : String) (fields : Fields) : Option Fields :=
  match fields.value? key with
  | none => some (fields.push key (.tables [.table .header []]))
  | some (.tables items) => some (fields.update key (.tables (.table .header [] :: items)))
  | some _ => none

end Fields

/-- A line of a document. -/
inductive Statement where
  | assignment (key : List String) (value : Toml)
  | header (path : List String)
  | arrayHeader (path : List String)

/-- The fields so far, and the path of the table that assignments go to. -/
structure Builder where
  root : Fields
  current : List String

/-- One more statement. -/
def Builder.step (b : Builder) : Statement → Option Builder
  | .assignment key value => do
    return { b with root := ← Fields.within? (·.assign? value key) b.current b.root }
  | .header path => do
    let last ← path.getLast?
    return ⟨← Fields.within? (Fields.open? last) path.dropLast b.root, path⟩
  | .arrayHeader path => do
    let last ← path.getLast?
    return ⟨← Fields.within? (Fields.openNext? last) path.dropLast b.root, path⟩

/-- The table that some statements make. -/
def ofStatements? (statements : List Statement) : Option Fields := do
  return (← statements.foldlM Builder.step ⟨[], []⟩).root

/-- The table in braces that some assignments make. -/
def ofAssignments? (assignments : List (List String × Toml)) : Option Toml := do
  return .table .braced
    (← assignments.foldlM (fun (fields : Fields) (key, value) => fields.assign? value key) [])

end Toml

end SeriesTable
