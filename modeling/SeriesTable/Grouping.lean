import SeriesTable.Block

/-
  Groupings: fragments collected into blocks, one block for every axis. Fragments arrive one by
  one (`add`) or in batches (`addBatch`); a batch is checked as a whole before any of it is taken
  in, and of a checked batch only repeated sources are left out.
-/

namespace SeriesTable

namespace Grouping

/-- When a batch is worth distributing over threads. It changes no result. -/
structure Options where
  concurrent : Bool := true
  /-- Batches of more fragments than this are distributed. -/
  pivot : Nat := 64
  threads : Nat := 1
  deriving DecidableEq, Repr

end Grouping

/-- Blocks in the order of their axes, and what was taken in since the last reset. -/
structure Grouping where
  options : Grouping.Options
  blocks : SortedMap Axis Block
  fragments : Nat
  bytes : Nat
  parallelBatches : Nat
  deriving DecidableEq

namespace Grouping

/-- A grouping that has taken in nothing. -/
def empty (options : Options) : Grouping := ⟨options, ∅, 0, 0, 0⟩

/-- The block of an axis, an empty one if none is held. -/
def blockFor (g : Grouping) (axis : Axis) : Block := (g.blocks.find? axis).getD (Block.empty axis)

/-- The grouping with one more fragment. -/
def add (g : Grouping) (f : Fragment) : Except Fault Grouping := do
  f.check
  let block ← (g.blockFor f.axis).addFragment f
  return { g with
    blocks := g.blocks.insert f.axis block
    fragments := g.fragments + 1
    bytes := g.bytes + f.size }

/-- What became of the fragments of one axis: the block, how much went in, and the first refusal. -/
structure Intake where
  block : Block
  fragments : Nat
  bytes : Nat
  refusal : Option Fault
  deriving DecidableEq

/-- The fragment put into the block if the block takes it. -/
def Intake.add (i : Intake) (f : Fragment) : Intake :=
  match i.block.addFragment f with
  | .ok block =>
    { i with block, fragments := i.fragments + 1, bytes := i.bytes + f.size }
  | .error fault => { i with refusal := i.refusal.or (some fault) }

/-- The fragments of one axis put into their block, in order. -/
def intake (block : Block) (fs : List Fragment) : Intake :=
  fs.foldl Intake.add ⟨block, 0, 0, none⟩

/-- The fragments by axis, those of one axis in the order of their arrival. -/
def byAxis (fs : List Fragment) : SortedMap Axis (List Fragment) :=
  fs.foldl (fun m f => m.insert f.axis ((m.find? f.axis).getD [] ++ [f])) ∅

/-- The grouping with what one axis took in. -/
def settle (g : Grouping) (i : Intake) : Grouping :=
  { g with
    blocks := if i.block.columns.isEmpty then g.blocks else g.blocks.insert i.block.axis i.block
    fragments := g.fragments + i.fragments
    bytes := g.bytes + i.bytes }

/-- A batch of this length is distributed over threads. -/
def distributes (o : Options) (length : Nat) : Bool := o.concurrent ∧ o.pivot < length

/-- The first fault that a check finds in a batch. -/
def firstFault? (fs : List Fragment) : Option Fault :=
  fs.findSome? fun f =>
    match f.check with
    | .ok () => none
    | .error fault => some fault

/-- The grouping after a batch, and the batch's fault. A fragment that fails its check keeps the
whole batch out; a repeated source keeps out that fragment alone, and the fault is then the first
in the order of the axes. -/
def addBatch (g : Grouping) (fs : List Fragment) : Grouping × Option Fault :=
  if fs.isEmpty then (g, none)
  else
    match firstFault? fs with
    | some fault => (g, some fault)
    | none =>
      let intakes := (byAxis fs).entries.map fun (axis, group) => intake (g.blockFor axis) group
      let counted :=
        { g with
          parallelBatches :=
            g.parallelBatches + (if distributes g.options fs.length then 1 else 0) }
      (intakes.foldl settle counted, intakes.findSome? (·.refusal))

/-- The blocks, in the order of their axes. -/
def list (g : Grouping) : List Block := g.blocks.values

/-- The blocks handed over; the counts stay. -/
def take (g : Grouping) : List Block × Grouping := (g.list, { g with blocks := ∅ })

/-- Nothing held and nothing counted. -/
def reset (g : Grouping) : Grouping := empty g.options

end Grouping

end SeriesTable
