import SeriesTable.Page

/-
  Pages laid out: the names and the columns of a page in two lists side by side, and an index with
  the place of every name. Nothing in the type says that the three agree. A column of missing values
  is put into both lists in place, where halving the list of names finds its place, and the index is
  then made anew; a column is looked up through the index.
-/

namespace SeriesTable

/-- Instants, and two lists side by side with an index. The rules are those of `verify`. -/
structure Layout where
  instants : List Int
  names : List String
  columns : List Column
  index : SortedMap String Nat
  deriving DecidableEq

namespace Layout

/-- The first instant. -/
def start (l : Layout) : Int := l.instants.headD 0

/-- The number of instants. -/
def rowCount (l : Layout) : Nat := l.instants.length

/-- The place of every name; of two places the last stays. -/
def places (names : List String) : SortedMap String Nat := SortedMap.ofList names.zipIdx

/-- The index and the two lists have the same number of entries, and every column has a value for
each instant. -/
def verify (l : Layout) : Except Fault Unit :=
  if l.index.size ≠ l.names.length ∨ l.names.length ≠ l.columns.length then
    .error (.misuse (.repeatedColumns l.start))
  else
    match (l.names.zip l.columns).find? fun e => e.2.length ≠ l.instants.length with
    | some (name, c) => .error (.columnLength name l.start l.instants.length c.length)
    | none => .ok ()

/-- The layout of these instants and columns, or the first thing that keeps them from having one. -/
def make (instants : List Int) (columns : SortedMap String Column) : Except Fault Layout :=
  if instants = [] then .error (.misuse .pageWithoutInstants)
  else
    match Instant.firstDescent? instants with
    | some (a, b) => .error (.misuse (.pageDescent a b))
    | none => do
      let l : Layout := ⟨instants, columns.keys, columns.values, places columns.keys⟩
      l.verify
      return l

/-- The layout of a single block. -/
def ofBlock (b : Block) : Except Fault Layout := make b.instants b.columns

/-- The layout of the blocks of a cluster over all their instants. -/
def ofCluster (c : Cluster) : Except Fault Layout := do
  let unified := Page.unifiedInstants c.blocks
  make unified (← c.blocks.foldlM (Page.mergeBlock unified) ∅)

/-- There is a column of the source. -/
def hasColumn (l : Layout) (name : String) : Bool := l.index.contains name

/-- The column of a source, found through the index. -/
def column? (l : Layout) (name : String) : Option Column :=
  (l.index.find? name).bind fun i => l.columns[i]?

/-- The first place from `low` on and before `high` whose name is not less, or else `high`. The
names must be such that no lesser one follows. -/
def placeIn (names : List String) (name : String) (low high : Nat) : Nat :=
  if low < high then
    let middle := (low + high) / 2
    if names[middle]?.any fun n => compare n name = .lt then placeIn names name (middle + 1) high
    else placeIn names name low middle
  else low
  termination_by high - low

/-- Where a name goes that is not there. -/
def place (l : Layout) (name : String) : Nat := placeIn l.names name 0 l.names.length

/-- The layout with a column of missing values for a source that it does not have, and whether there
was none. -/
def insertNull (l : Layout) (name : String) (kind : Kind) : Bool × Layout :=
  if l.hasColumn name then (false, l)
  else
    let names := l.names.insertIdx (l.place name) name
    (true, { l with
      names
      columns := l.columns.insertIdx (l.place name) (Column.nulls kind l.rowCount)
      index := places names })

/-- The layout after columns of missing values for several sources, one after another. -/
def insertNulls (l : Layout) (es : List (String × Kind)) : Layout :=
  es.foldl (fun l e => (l.insertNull e.1 e.2).2) l

end Layout

end SeriesTable
