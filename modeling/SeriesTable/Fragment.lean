import SeriesTable.Fault

/-
  Fragments: the values of one source over one axis, as they arrive. `Fragment.check` says
  whether a fragment may be put into a block, and the first thing that is wrong with it if not.
-/

namespace SeriesTable

/-- The first value that does not fit the kind, with its place. -/
def firstUnfit? (kind : Kind) (values : List Value) : Option (Value × Nat) :=
  values.zipIdx.find? fun v => ¬ v.1.Fits kind

theorem firstUnfit?_eq_none_iff {kind : Kind} {values : List Value} :
    firstUnfit? kind values = none ↔ ∀ v ∈ values, v.Fits kind := by
  unfold firstUnfit?
  rw [List.find?_eq_none]
  simp only [decide_not, Bool.not_eq_true', decide_eq_false_iff_not, Decidable.not_not]
  constructor
  · intro h v hv
    obtain ⟨i, hi, rfl⟩ := List.getElem_of_mem hv
    exact h (values[i], i) (List.mem_zipIdx_iff_getElem?.mpr (by simp [hi]))
  · intro h v hv
    exact h v.1 (List.fst_mem_of_mem_zipIdx hv)

/-- One source's values over one axis, and the size of the message that brought them. -/
structure Fragment where
  source : String
  kind : Kind
  values : List Value
  axis : Axis
  size : Nat
  deriving DecidableEq, Repr

namespace Fragment

/-- Bytes that a message with these values is counted with: a listed instant takes eight more. -/
def messageSize (kind : Kind) (values : List Value) : Axis → Nat
  | .clock _ => values.length * kind.size
  | .list _ => values.length * (kind.size + 8)

/-- A fragment whose message is counted by its contents. -/
def ofValues (source : String) (kind : Kind) (values : List Value) (axis : Axis) : Fragment :=
  ⟨source, kind, values, axis, messageSize kind values axis⟩

/-- The fragment may be put into a block: it has a name and values of a supported kind, its axis
is in order, and there is one fitting value for every instant. -/
def check (f : Fragment) : Except Fault Unit :=
  if f.source = "" then .error (.malformedFragment "" .noName)
  else if ¬ f.kind.Supported then .error (.unsupportedKind f.source f.kind)
  else if f.values = [] then .error (.malformedFragment f.source .noValues)
  else
    match f.axis.check with
    | .error flaw => .error (.malformedFragment f.source (.badAxis flaw))
    | .ok () =>
      if f.values.length ≠ f.axis.sampleCount then
        .error (.malformedFragment f.source
          (.lengthMismatch f.values.length f.axis.sampleCount))
      else
        match firstUnfit? f.kind f.values with
        | some (value, index) =>
          .error (.malformedFragment f.source (.unfitValue value index f.kind))
        | none => .ok ()

end Fragment

end SeriesTable
