import SeriesTable.Proofs.Book.Pages
import SeriesTable.Proofs.Grouping.Blocks
import SeriesTable.Proofs.PagedTable.Rows

/-
  From fragments to a table. Whatever way compatible fragments were delivered to a grouping, its
  blocks resolve into regions, and the regions have a book exactly if the fragments' kinds agree
  (`Holds.ofRegions_cases`). The table of the book then has a column for each source, a row for each
  instant, and in each cell the value chosen among the fragments (`Tabulates`).
  `deliveries_tabulated` puts the stages together.
-/

namespace SeriesTable

/-- The table has the fragments' sources as columns in name order, their instants as rows in time
order, and in each cell the value chosen there. -/
structure Tabulates (t : PagedTable) (fs : List Fragment) : Prop where
  names_increasing : (Tabular.columnNames t).Pairwise (· < ·)
  mem_names : ∀ name, name ∈ Tabular.columnNames t ↔ ∃ f ∈ fs, f.source = name
  columnCount_eq : Tabular.columnCount t = (Tabular.columnNames t).length
  kinds : ∀ (col : Nat) (name : String), (Tabular.columnNames t)[col]? = some name →
    ∃ kind, Tabular.columnKind t col = .ok kind ∧ ∀ f ∈ fs, f.source = name → f.kind = kind
  instants_increasing : Instant.Increasing (Tabular.instants t)
  mem_instants : ∀ i, i ∈ Tabular.instants t ↔ ∃ f ∈ fs, i ∈ f.axis.instants
  rowCount_eq : Tabular.rowCount t = (Tabular.instants t).length
  cells : ∀ (row col : Nat) (i : Int) (name : String), (Tabular.instants t)[row]? = some i →
    (Tabular.columnNames t)[col]? = some name →
      Tabular.instant t row = .ok i ∧ Tabular.columnName t col = .ok name ∧
        ∃ v, Tabular.value t row col = .ok v ∧ Fragment.Chosen fs name i v

namespace Grouping

variable {g : Grouping} {fs : List Fragment}

/-- The blocks of a grouping are in start order, so the regions keep their order. -/
theorem Holds.components (hg : g.Holds fs) :
    Components g.list (Resolution.ofBlocks g.list).regions := by
  have h := Resolution.components_ofBlocks fun b hb => (hg.sound hb).ordered_span
  rwa [mergeSort_of_ordered Block.start hg.tidy.sorted_list] at h

theorem Holds.checked_ofBlocks (hg : g.Holds fs) :
    (Resolution.ofBlocks g.list).checked = .ok (Resolution.ofBlocks g.list).regions :=
  Resolution.checked_ofBlocks fun _ hb => (hg.sound hb).ordered_span

theorem Holds.ofRegions_cases (hg : g.Holds fs) :
    (∃ b, Book.ofRegions (Resolution.ofBlocks g.list).regions = .ok b ∧ b.Shows g.list) ∨
      ∃ fault, Book.ofRegions (Resolution.ofBlocks g.list).regions = .error fault ∧
        fault.IsConflict (g.list.map Block.columns) := by
  have hc := hg.components
  have hcases := Book.ofRegions_cases
    (fun r hr b hb => hg.sound (hc.mem_blocks hr hb)) hc.apart
  rwa [hc.blocks] at hcases

/-- A book that shows the blocks of fragments makes a table of the fragments. -/
theorem Holds.tabulates (hg : g.Holds fs) {b : Book} (hb : b.Shows g.list) :
    Tabulates (PagedTable.ofBook b) fs where
  names_increasing := by
    rw [PagedTable.columnNames_ofBook]
    exact b.kinds.sorted_keys.imp compareOfLessAndEq_eq_lt.mp
  mem_names name := by
    rw [PagedTable.columnNames_ofBook, SortedMap.mem_keys_iff]
    constructor
    · rintro ⟨kind, hkind⟩
      obtain ⟨f, hf, hs, -⟩ := hg.declares_iff.mp ((hb.kinds_iff name kind).mp hkind)
      exact ⟨f, hf, hs⟩
    · rintro ⟨f, hf, hs⟩
      exact ⟨f.kind, (hb.kinds_iff name f.kind).mpr (hg.declares_iff.mpr ⟨f, hf, hs, rfl⟩)⟩
  columnCount_eq := by
    rw [PagedTable.columnNames_ofBook]
    rfl
  kinds col name hcol := by
    rw [PagedTable.columnNames_ofBook] at hcol
    obtain ⟨hk, rfl⟩ := List.getElem?_eq_some_iff.mp hcol
    have hv : col < b.kinds.values.length := by
      rwa [SortedMap.length_values, ← SortedMap.length_keys]
    refine ⟨b.kinds.values[col],
      Tabular.element_eq_ok_iff.mpr (List.getElem?_eq_getElem hv), ?_⟩
    intro f hf hs
    have hkind := (hb.kinds_iff _ _).mpr (hg.declares_iff.mpr ⟨f, hf, hs, rfl⟩)
    rw [b.kinds.find?_getElem_keys hk hv] at hkind
    exact (Option.some.inj hkind).symm
  instants_increasing := hb.increasing
  mem_instants i := (hb.mem_instants i).trans hg.mem_instants_iff
  rowCount_eq := (PagedTable.length_instants b).symm
  cells row col i name hi hcol := by
    rw [PagedTable.columnNames_ofBook] at hcol
    have hrow : row < b.rowCount := by
      rw [← PagedTable.length_instants]
      exact (List.getElem?_eq_some_iff.mp hi).1
    obtain ⟨t, ht, hinstant⟩ := PagedTable.instant_ofBook hrow
    obtain ⟨p, hp, u, hu, hu', hvalue⟩ := PagedTable.value_ofBook hrow hcol
    obtain rfl : i = t := Option.some.inj (hi.symm.trans ht)
    obtain rfl : i = u := Option.some.inj (hi.symm.trans hu')
    refine ⟨hinstant, Tabular.element_eq_ok_iff.mpr hcol, _, hvalue, ?_⟩
    rw [hb.known?_eq p hp i hu]
    exact hg.chosen name i

/-- Fragments delivered one by one or in batches, in any order, to a fresh grouping that took all of
them. Its blocks resolve; the regions have a book exactly if no source has fragments of two kinds,
and otherwise the fault is such a conflict; the table of the book is that of the fragments. The same
fragments delivered in another order or in other batches are taken too and give the same blocks,
hence the same table. -/
theorem deliveries_tabulated {o : Options} {ds : List Delivery} {g : Grouping}
    (h : (empty o).acceptAll ds = .ok g) :
    ∃ rs, (Resolution.ofBlocks g.list).checked = .ok rs ∧
      ((∃ b, Book.ofRegions rs = .ok b) ↔
        Fragment.KindsAgree (ds.flatMap Delivery.fragments)) ∧
      (¬ Fragment.KindsAgree (ds.flatMap Delivery.fragments) →
        ∃ source k l, Book.ofRegions rs = .error (.kindConflict source k l)) ∧
      (∀ b, Book.ofRegions rs = .ok b →
        Tabulates (PagedTable.ofBook b) (ds.flatMap Delivery.fragments)) ∧
      ∀ (o' : Options) (ds' : List Delivery),
        (ds'.flatMap Delivery.fragments).Perm (ds.flatMap Delivery.fragments) →
          ∃ g', (empty o').acceptAll ds' = .ok g' ∧ g'.list = g.list := by
  have hg := acceptAll_holds h
  have hagree : ∀ {b}, Book.Shows b g.list →
      Fragment.KindsAgree (ds.flatMap Delivery.fragments) := fun hb =>
    hg.uniform_iff.mp hb.uniform
  refine ⟨_, hg.checked_ofBlocks, ⟨?_, ?_⟩, ?_, ?_, ?_⟩
  · rintro ⟨b, hb⟩
    rcases hg.ofRegions_cases with ⟨b', -, hshows⟩ | ⟨fault, hfault, -⟩
    · exact hagree hshows
    · rw [hfault] at hb
      cases hb
  · intro hk
    rcases hg.ofRegions_cases with ⟨b, hb, -⟩ | ⟨fault, -, hconflict⟩
    · exact ⟨b, hb⟩
    · exact absurd (hg.uniform_iff.mpr hk) hconflict.not_uniform
  · intro hk
    rcases hg.ofRegions_cases with ⟨b, -, hshows⟩ | ⟨fault, hfault, hconflict⟩
    · exact absurd (hagree hshows) hk
    · obtain ⟨source, k, l, rfl, -⟩ := hconflict
      exact ⟨source, k, l, hfault⟩
  · intro b hb
    rcases hg.ofRegions_cases with ⟨b', hb', hshows⟩ | ⟨fault, hfault, -⟩
    · rw [hb] at hb'
      cases hb'
      exact hg.tabulates hshows
    · rw [hfault] at hb
      cases hb
  · intro o' ds' hperm
    obtain ⟨g', hg'⟩ := (acceptAll_ok_iff (o := o')).mpr (hg.compatible.perm hperm.symm)
    refine ⟨g', hg', ?_⟩
    rw [list, list, (acceptAll_holds hg').blocks_eq hperm hg]

/-- A source twice over: the later axis fills in what the earlier one misses. -/
def overlapping : List Delivery :=
  [.batch [⟨"a", .int, [.int 5, .int 6], .list [10, 20], 8⟩,
    ⟨"b", .bool, [.bool true], .list [30], 1⟩],
    .single ⟨"a", .int, [.int 1, .null], .list [0, 10], 8⟩]

theorem deliveries_tabulated_overlapping : ∃ g rs b, (empty {}).acceptAll overlapping = .ok g ∧
    (Resolution.ofBlocks g.list).checked = .ok rs ∧ Book.ofRegions rs = .ok b ∧
      Tabulates (PagedTable.ofBook b) (overlapping.flatMap Delivery.fragments) := by
  have hc : Compatible (overlapping.flatMap Delivery.fragments) := by decide
  have hk : Fragment.KindsAgree (overlapping.flatMap Delivery.fragments) := by decide
  obtain ⟨g, hg⟩ := acceptAll_ok_iff.mpr hc
  obtain ⟨rs, hrs, hok, -, htable, -⟩ := deliveries_tabulated hg
  obtain ⟨b, hb⟩ := hok.mpr hk
  exact ⟨g, rs, b, hg, hrs, hb, htable b hb⟩

example : (do
    let g ← (empty {}).acceptAll overlapping
    let b ← Book.ofRegions (Resolution.ofBlocks g.list).regions
    b.series "a") = .ok [.int 1, .int 5, .int 6, .null] := by cbv

end Grouping

end SeriesTable
