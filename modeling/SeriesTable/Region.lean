import SeriesTable.Block

/-
  Regions: blocks whose spans are linked by overlaps, kept together. `Resolution.ofBlocks` reads
  the blocks in start order and joins a block to the region before it exactly if their spans
  meet, so that the spans of different regions have no instant in common. What becomes of the blocks
  is counted on the way, whenever a region is closed.
-/

namespace SeriesTable

/-- Two or more blocks that belong together, in start order. -/
structure Cluster where
  first : Block
  second : Block
  others : List Block
  deriving DecidableEq

namespace Cluster

/-- All blocks, in start order. -/
def blocks (c : Cluster) : List Block := c.first :: c.second :: c.others

/-- The smallest span that covers every block. -/
def span (c : Cluster) : Span :=
  (c.second :: c.others).foldl (fun s b => s.hull b.span) c.first.span

/-- The sources of all blocks in name order, each once. -/
def sources (c : Cluster) : List String :=
  (SortedMap.ofList (c.blocks.flatMap fun b => b.sources.map fun s => (s, ()))).keys

end Cluster

/-- A block that meets no other, or blocks to be merged. -/
inductive Region where
  | lone (block : Block)
  | merged (cluster : Cluster)
  deriving DecidableEq

namespace Region

/-- The blocks of the region, in start order. -/
def blocks : Region → List Block
  | lone b => [b]
  | merged c => c.blocks

/-- From the first instant of a block to the last one. -/
def span : Region → Span
  | lone b => b.span
  | merged c => c.span

/-- The first instant. -/
def start (r : Region) : Int := r.span.start

/-- It has more than one block. -/
def isMerged : Region → Bool
  | lone _ => false
  | merged _ => true

/-- The region of some blocks, the first of them apart. -/
def ofBlocks (first : Block) : List Block → Region
  | [] => .lone first
  | second :: others => .merged ⟨first, second, others⟩

end Region

/-- The first neighbouring pair that is out of order: the spans meet, or the later one starts
before the earlier one. -/
def Span.firstCollision? : List Span → Option (Span × Span)
  | a :: b :: rest =>
    if a.Meets b ∨ b.start < a.start then some (a, b) else firstCollision? (b :: rest)
  | _ => none

/-- The spans follow one another without meeting. -/
def Span.checkDisjoint (spans : List Span) : Except Fault Unit :=
  match Span.firstCollision? spans with
  | some (a, b) => .error (.collision a b)
  | none => .ok ()

namespace Region

/-- A region still open: its first block, the others in reverse, and the span of them all. -/
structure Pending where
  first : Block
  others : List Block
  hull : Span

namespace Pending

/-- A region that has just been opened. -/
def single (b : Block) : Pending := ⟨b, [], b.span⟩

/-- The open region with one more block. -/
def join (p : Pending) (b : Block) : Pending :=
  { p with others := b :: p.others, hull := p.hull.hull b.span }

/-- The region, with its blocks in their order. -/
def close (p : Pending) : Region := ofBlocks p.first p.others.reverse

end Pending

/-- What is counted of the blocks of one resolution. -/
structure Stats where
  /-- Blocks received. -/
  received : Nat
  /-- Blocks that met no other. -/
  lone : Nat := 0
  /-- Merged regions. -/
  merged : Nat := 0
  /-- Blocks that went into merged regions. -/
  absorbed : Nat := 0
  deriving DecidableEq, Repr

/-- The counters after a region was closed. -/
def Stats.close (n : Stats) : Region → Stats
  | .lone _ => { n with lone := n.lone + 1 }
  | .merged c => { n with merged := n.merged + 1, absorbed := n.absorbed + c.blocks.length }

/-- The regions of an open region and the blocks after it, with the counters. -/
def sweep (p : Pending) (n : Stats) : List Block → List Region × Stats
  | [] => ([p.close], n.close p.close)
  | b :: rest =>
    if p.hull.Meets b.span then sweep (p.join b) n rest
    else
      let (regions, n) := sweep (Pending.single b) (n.close p.close) rest
      (p.close :: regions, n)

/-- The regions of blocks in start order, with the counters. -/
def ofOrdered (bs : List Block) : List Region × Stats :=
  match bs with
  | [] => ([], { received := 0 })
  | b :: rest => sweep (Pending.single b) { received := bs.length } rest

end Region

/-- The regions that some blocks form, and what was counted in forming them. -/
structure Resolution where
  regions : List Region
  stats : Region.Stats
  deriving DecidableEq

namespace Resolution

/-- The blocks are sorted by their starts, those with the same start left in order, and joined
into regions. -/
def ofBlocks (bs : List Block) : Resolution :=
  let (regions, stats) := Region.ofOrdered (bs.mergeSort fun a b => a.start ≤ b.start)
  { regions, stats }

/-- The regions, after a last look that they follow one another. -/
def checked (r : Resolution) : Except Fault (List Region) := do
  Span.checkDisjoint (r.regions.map Region.span)
  return r.regions

/-- Blocks received. -/
def blockCount (r : Resolution) : Nat := r.stats.received

/-- Blocks that met no other. -/
def loneCount (r : Resolution) : Nat := r.stats.lone

/-- Merged regions. -/
def mergedCount (r : Resolution) : Nat := r.stats.merged

/-- Blocks that went into merged regions. -/
def absorbedCount (r : Resolution) : Nat := r.stats.absorbed

end Resolution

end SeriesTable
