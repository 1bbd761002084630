import SeriesTable.Grouping

/-
  Blocks and groupings changed in place. These operations have the checks of `Block.addColumn`,
  `Block.addFragment`, `Grouping.add` and `Grouping.addBatch` and make their changes one after
  another; what was changed before a fault stays. A batch takes the blocks of its axes out of the
  grouping before it puts anything into them.
-/

namespace SeriesTable

namespace Block

/-- One more column for the block. -/
def insertColumn (source : String) (c : Column) : EStateM Fault Block Unit := do
  let b ← get
  if c.length ≠ b.sampleCount then
    throw (.columnLength source b.start b.sampleCount c.length)
  if b.hasSource source then throw (.duplicateSource source b.start)
  set { b with columns := b.columns.insert source c }

/-- A fragment's values as one more column. -/
def insertFragment (f : Fragment) : EStateM Fault Block Unit := do
  let b ← get
  if f.axis ≠ b.axis then throw (.misuse (.wrongBlock f.source f.axis b.axis))
  if b.hasSource f.source then throw (.duplicateSource f.source b.start)
  let c ← ofExcept (Column.make f.source f.kind f.values)
  insertColumn f.source c

/-- A block of its own for a fragment. -/
def ofFragment (f : Fragment) : Except Fault Block :=
  match (insertFragment f).run (empty f.axis) with
  | .ok () b => .ok b
  | .error fault _ => .error fault

end Block

namespace Grouping

/-- A change of a held block. The block stays under its axis as the change leaves it. -/
def change (axis : Axis) (b : Block) (x : EStateM Fault Block Unit) :
    EStateM Fault Grouping Unit := fun g =>
  match x.run b with
  | .ok () b => .ok () { g with blocks := g.blocks.insert axis b }
  | .error fault b => .error fault { g with blocks := g.blocks.insert axis b }

/-- One more fragment: for the block of its axis, or else for a new one, which is held only if it
takes the fragment. It is counted last. -/
def insert (f : Fragment) : EStateM Fault Grouping Unit := do
  ofExcept f.check
  match (← get).blocks.find? f.axis with
  | some b => change f.axis b (Block.insertFragment f)
  | none => do
    let b ← ofExcept (Block.ofFragment f)
    modify fun g => { g with blocks := g.blocks.insert b.axis b }
  modify fun g => { g with fragments := g.fragments + 1, bytes := g.bytes + f.size }

/-! ## Batches -/

/-- The block of an axis taken out, or an empty one if none is held, beside the fragments for it. -/
def detach (axis : Axis) (group : List Fragment) :
    EStateM Fault Grouping (Block × List Fragment) := do
  let g ← get
  set { g with blocks := g.blocks.erase axis }
  return (g.blockFor axis, group)

/-- A batch of this length is distributed if it is long enough. Then a pool of threads is needed,
and there may be a reason why none is to be had. -/
def distribute (noPool : Option String) (length : Nat) : EStateM Fault Grouping Unit := do
  let g ← get
  if distributes g.options length then
    match noPool with
    | some reason => throw (.settings (.poolNotBuilt reason))
    | none => set { g with parallelBatches := g.parallelBatches + 1 }

/-- What one axis took in is counted, and its block is held again unless nothing is in it. -/
def attach (i : Intake) : EStateM Fault Grouping Unit := modify (settle · i)

/-- A batch: checked as a whole, then put into the blocks of its axes, which are out of the grouping
meanwhile. -/
def insertBatch (noPool : Option String) (fs : List Fragment) : EStateM Fault Grouping Unit := do
  if fs.isEmpty then return ()
  else
    forM fs fun f => ofExcept f.check
    let work ← (byAxis fs).entries.mapM fun e => detach e.1 e.2
    distribute noPool fs.length
    let intakes := work.map fun w => intake w.1 w.2
    forM intakes attach
    match intakes.findSome? (·.refusal) with
    | some fault => throw fault
    | none => return ()

end Grouping

end SeriesTable
