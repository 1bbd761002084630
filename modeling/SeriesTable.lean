import SeriesTable.Grouping
import SeriesTable.Page.Table
import SeriesTable.PagedTable
import SeriesTable.FlatTable.Render
import SeriesTable.Span.Document
import SeriesTable.Request.Document
import SeriesTable.Request.Planner
import SeriesTable.Counters
import SeriesTable.Handoff
import SeriesTable.Settings.Document
import SeriesTable.Settings.Environment
import SeriesTable.Service
import SeriesTable.Proofs.StableSort
import SeriesTable.Proofs.Lists
import SeriesTable.Proofs.Span.Disjoint
import SeriesTable.Proofs.Region.Components
import SeriesTable.Proofs.Request.Cover
import SeriesTable.Proofs.Request.Plan
import SeriesTable.Proofs.SortedMap.Lookup
import SeriesTable.Proofs.SortedMap.Merge
import SeriesTable.Proofs.Grouping.Lookup
import SeriesTable.Proofs.Grouping.Batch
import SeriesTable.Proofs.Grouping.Contents
import SeriesTable.Proofs.Grouping.Blocks
import SeriesTable.Proofs.Grouping.OneByOne
import SeriesTable.Proofs.Grouping.Reachable
import SeriesTable.Proofs.Grouping.Keeping
import SeriesTable.Proofs.Axis.Instants
import SeriesTable.Proofs.Block.Samples
import SeriesTable.Proofs.Column.Kinds
import SeriesTable.Proofs.Page.Merge
import SeriesTable.Proofs.Book.Pages
import SeriesTable.Proofs.Book.Binding
import SeriesTable.Proofs.Tabular.Access
import SeriesTable.Proofs.PagedTable.Rows
import SeriesTable.Proofs.PagedTable.Refines
import SeriesTable.Proofs.PagedTable.Fragments
import SeriesTable.Proofs.Collector.Batches
import SeriesTable.Proofs.Handoff.Steps
import SeriesTable.Proofs.Run.Steps
import SeriesTable.Proofs.Run.Balance
import SeriesTable.Proofs.Run.Orderly
import SeriesTable.Proofs.Run.Progress
import SeriesTable.Proofs.Run.Outcome
import SeriesTable.Proofs.Settings.Bounds
import SeriesTable.Proofs.Service.Division
import SeriesTable.Proofs.Page.Reconciled
import SeriesTable.Proofs.FlatTable.Copy
import SeriesTable.Proofs.Grouping.Ledger
import SeriesTable.Proofs.Handoff.Traffic
import SeriesTable.Proofs.Handoff.Safety
import SeriesTable.Csv.Reader
import SeriesTable.Proofs.Csv.RoundTrip
import SeriesTable.Proofs.Request.Sizes
import SeriesTable.Proofs.Value.Bare
import SeriesTable.Proofs.FlatTable.Records
import SeriesTable.Grouping.InPlace
import SeriesTable.Proofs.Collector.Handed
import SeriesTable.Proofs.Grouping.Insertion
import SeriesTable.Proofs.Clock.Acceptance
import SeriesTable.Csv.Lenient
import SeriesTable.Proofs.Csv.LineEndings
import SeriesTable.Proofs.FlatTable.LineEndings
import SeriesTable.Page.Layout
import SeriesTable.Proofs.Page.Layout
import SeriesTable.Proofs.Region.Axes
import SeriesTable.Proofs.Run.Counting
import SeriesTable.Proofs.Service.Counting
import SeriesTable.Clock.Walk
import SeriesTable.Proofs.Clock.Walk
import SeriesTable.Proofs.Axis.Order
import SeriesTable.Proofs.Page.Rows
import SeriesTable.Proofs.Grouping.BatchInPlace
import SeriesTable.Proofs.Run.Threads
import SeriesTable.Proofs.Service.Surroundings
