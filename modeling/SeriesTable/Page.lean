import SeriesTable.Region

/-
  Pages: strictly increasing instants and named columns with one value for each of them. A page
  is made of a block, or of the blocks of a cluster merged onto one axis, and can be padded with
  columns of missing values.
-/

namespace SeriesTable

/-- Columns over increasing instants, of which there is at least one. -/
structure Page where
  instants : List Int
  columns : SortedMap String Column
  nonempty : instants ≠ []
  increasing : Instant.Increasing instants
  lengths : ∀ e ∈ columns.entries, e.2.length = instants.length

namespace Page

theorem ext' {p q : Page} (hi : p.instants = q.instants) (hc : p.columns = q.columns) : p = q := by
  cases p; cases q; simp_all

instance : DecidableEq Page := fun p q =>
  decidable_of_iff (p.instants = q.instants ∧ p.columns = q.columns)
    ⟨fun h => ext' h.1 h.2, fun h => h ▸ ⟨rfl, rfl⟩⟩

/-- The page of these instants and columns, or the first thing that keeps it from being one. -/
def make (instants : List Int) (columns : SortedMap String Column) : Except Fault Page :=
  if hn : instants = [] then .error (.misuse .pageWithoutInstants)
  else
    match hd : Instant.firstDescent? instants with
    | some (a, b) => .error (.misuse (.pageDescent a b))
    | none =>
      match hl : columns.entries.find? fun e => e.2.length ≠ instants.length with
      | some (name, c) =>
        .error (.columnLength name (instants.headD 0) instants.length c.length)
      | none =>
        .ok ⟨instants, columns, hn, Instant.firstDescent?_eq_none_iff.mp hd, by
          simpa using hl⟩

/-- The number of instants. -/
def rowCount (p : Page) : Nat := p.instants.length

/-- The first instant. -/
def start (p : Page) : Int := p.instants.headD 0

/-- The last instant. -/
def stop (p : Page) : Int := p.instants.getLastD 0

/-- From the first instant to the last. -/
def span (p : Page) : Span := ⟨p.start, p.stop⟩

/-- The column of a source. -/
def column? (p : Page) (name : String) : Option Column := p.columns.find? name

/-- There is a column of the source. -/
def hasColumn (p : Page) (name : String) : Bool := p.columns.contains name

/-- The value of a source in a row; missing if the page does not have the source. -/
def valueOrNull (p : Page) (row : Nat) (name : String) : Except Fault Value :=
  if row < p.rowCount then
    .ok (((p.column? name).bind fun c => c.values[row]?).getD .null)
  else .error (.rowOutOfBounds row p.rowCount)

/-- The page with a column of missing values for a source that it does not have. -/
def pad (p : Page) (name : String) (kind : Kind) : Page :=
  if p.hasColumn name then p
  else
    { p with
      columns := p.columns.insert name (Column.nulls kind p.rowCount)
      lengths := fun e he => by
        rcases SortedMap.mem_insertIn he with rfl | he
        · simp [rowCount]
        · exact p.lengths e he }

/-- The page of a single block. -/
def ofBlock (b : Block) : Except Fault Page := make b.instants b.columns

/-! ## Merging blocks onto one axis -/

/-- All instants of some blocks, in order and each once. -/
def unifiedInstants (bs : List Block) : List Int :=
  ((bs.flatMap Block.instants).mergeSort fun a b => a ≤ b).eraseReps

/-- The place of an instant from `low` on and before `high`, found by halving. The instants must be
increasing. -/
def rowIn (instants : List Int) (t : Int) (low high : Nat) : Option Nat :=
  if low < high then
    let middle := (low + high) / 2
    match compare (instants.getD middle t) t with
    | .lt => rowIn instants t (middle + 1) high
    | .eq => some middle
    | .gt => rowIn instants t low middle
  else none
  termination_by high - low

/-- The place of an instant among increasing ones. -/
def row? (instants : List Int) (t : Int) : Option Nat := rowIn instants t 0 instants.length

/-- The row of an instant on the merged axis. -/
def rowOn (unified : List Int) (t : Int) : Except Fault Nat :=
  match row? unified t with
  | some row => .ok row
  | none => .error (.misuse (.missingInstant t))

/-- One column of a block filled into the merged columns, its values into these rows. -/
def mergeColumn (rowCount : Nat) (rows : List Nat) (merged : SortedMap String Column)
    (name : String) (c : Column) : Except Fault (SortedMap String Column) :=
  let target := (merged.find? name).getD (Column.nulls c.kind rowCount)
  if target.kind ≠ c.kind then .error (.kindConflict name target.kind c.kind)
  else .ok (merged.insert name (target.fillRows c.values rows))

/-- The columns of a block filled into the merged columns, at the rows of its instants. -/
def mergeBlock (unified : List Int) (merged : SortedMap String Column) (b : Block) :
    Except Fault (SortedMap String Column) := do
  let rows ← b.instants.mapM (rowOn unified)
  b.columns.entries.foldlM (fun merged e => mergeColumn unified.length rows merged e.1 e.2) merged

/-- The page of the blocks of a cluster over all their instants. Of two samples of one source at
one instant the earlier block's stays. -/
def ofCluster (c : Cluster) : Except Fault Page := do
  let unified := unifiedInstants c.blocks
  make unified (← c.blocks.foldlM (mergeBlock unified) ∅)

/-- The page of a region. -/
def ofRegion : Region → Except Fault Page
  | .lone b => ofBlock b
  | .merged c => ofCluster c

end Page

end SeriesTable
