import SeriesTable.Page

/-
  Books: the pages of one result in time order. Pages of a book have no instant in common, and
  each is padded to have the columns of all.
-/

namespace SeriesTable

/-- Pages in time order with the kinds of all sources. -/
structure Book where
  pages : List Page
  kinds : SortedMap String Kind
  deriving DecidableEq

namespace Book

/-- The book of no pages. -/
def empty : Book := ⟨[], ∅⟩

/-- The kinds with those of one more page. -/
def addKinds (kinds : SortedMap String Kind) (p : Page) : Except Fault (SortedMap String Kind) :=
  p.columns.entries.foldlM
    (fun kinds e =>
      match kinds.find? e.1 with
      | some declared =>
        if declared = e.2.kind then .ok kinds
        else .error (.kindConflict e.1 declared e.2.kind)
      | none => .ok (kinds.insert e.1 e.2.kind))
    kinds

/-- The kinds of all sources of some pages, refused if one source has two. -/
def kindsOf (ps : List Page) : Except Fault (SortedMap String Kind) := ps.foldlM addKinds ∅

/-- The page padded to all sources. -/
def padPage (kinds : SortedMap String Kind) (p : Page) : Page :=
  kinds.entries.foldl (fun p e => p.pad e.1 e.2) p

/-- The book of some pages, refused if two of them meet or a source has two kinds. -/
def ofPages (ps : List Page) : Except Fault Book := do
  let ps := ps.mergeSort fun a b => a.start ≤ b.start
  Span.checkDisjoint (ps.map Page.span)
  let kinds ← kindsOf ps
  return ⟨ps.map (padPage kinds), kinds⟩

/-- The book of some regions. -/
def ofRegions (rs : List Region) : Except Fault Book := do ofPages (← rs.mapM Page.ofRegion)

/-- The rows of all pages together. -/
def rowCount (b : Book) : Nat := b.pages.foldr (fun p n => p.rowCount + n) 0

/-- The sources of all pages, in order. -/
def sources (b : Book) : List String := b.kinds.keys

/-- The kind of a source, refused if no page has it. -/
def kind (b : Book) (name : String) : Except Fault Kind :=
  match b.kinds.find? name with
  | some kind => .ok kind
  | none => .error (.noSuchColumn name)

/-- Some page has the source. -/
def hasSource (b : Book) (name : String) : Bool := b.kinds.contains name

/-- From the first instant of the first page to the last one of the last page. -/
def span? (b : Book) : Option Span :=
  match b.pages.head?, b.pages.getLast? with
  | some first, some last => some ⟨first.start, last.stop⟩
  | _, _ => none

/-- The instants of all pages, one page after another. -/
def instants (b : Book) : List Int := b.pages.flatMap Page.instants

/-- The values of a source on a page. A page that is not padded to have the source is refused. -/
def pageValues (name : String) (p : Page) : Except Fault (List Value) :=
  match p.column? name with
  | some c => .ok c.values
  | none => .error (.misuse (.unpaddedPage p.start name))

/-- The values of a source through all pages. -/
def series (b : Book) (name : String) : Except Fault (List Value) :=
  if b.hasSource name then (b.pages.mapM (pageValues name)).map List.flatten
  else .error (.noSuchColumn name)

end Book

end SeriesTable
