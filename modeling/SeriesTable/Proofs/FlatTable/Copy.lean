import SeriesTable.FlatTable
import SeriesTable.Page.Table
import SeriesTable.Proofs.PagedTable.Refines

/-
  Flat copies. A table is `Alike` another if every operation answers alike, whatever index or name
  it is asked for and also where it refuses. A table that is like some sound flat table has that
  one as its copy (`ofTable_of_alike`), and pages, books read as tables and flat tables themselves
  are each like one.

  Main statement: `copy_agrees`, for all tables there are.
-/

namespace SeriesTable

/-! ## Tables that answer alike -/

namespace Tabular

variable {σ τ : Type} [Tabular σ] [Tabular τ] {s : σ} {t : τ}

/-- Every operation of a table answers alike, faults included. -/
structure Alike (s : σ) (t : τ) : Prop where
  rowCount : Tabular.rowCount s = Tabular.rowCount t
  columnCount : Tabular.columnCount s = Tabular.columnCount t
  columnName : ∀ col, Tabular.columnName s col = Tabular.columnName t col
  columnIndex : ∀ name, Tabular.columnIndex s name = Tabular.columnIndex t name
  columnKind : ∀ col, Tabular.columnKind s col = Tabular.columnKind t col
  instant : ∀ row, Tabular.instant s row = Tabular.instant t row
  value : ∀ row col, Tabular.value s row col = Tabular.value t row col
  columnValues : ∀ col, Tabular.columnValues s col = Tabular.columnValues t col
  instants : Tabular.instants s = Tabular.instants t

/-- Whatever can be asked of a table is answered alike, faults included. -/
structure Agree (s : σ) (t : τ) : Prop extends Alike s t where
  isEmpty : Tabular.isEmpty s = Tabular.isEmpty t
  columnNames : Tabular.columnNames s = Tabular.columnNames t
  valueByName : ∀ row name, Tabular.valueByName s row name = Tabular.valueByName t row name
  rowValues : ∀ row, Tabular.rowValues s row = Tabular.rowValues t row
  columnValuesByName : ∀ name,
    Tabular.columnValuesByName s name = Tabular.columnValuesByName t name

theorem Alike.refl (t : τ) : Alike t t :=
  ⟨rfl, rfl, fun _ => rfl, fun _ => rfl, fun _ => rfl, fun _ => rfl, fun _ _ => rfl, fun _ => rfl,
    rfl⟩

theorem Alike.agree (h : Alike s t) : Agree s t where
  toAlike := h
  isEmpty := by rw [Tabular.isEmpty, Tabular.isEmpty, h.rowCount]
  columnNames := by
    rw [Tabular.columnNames, Tabular.columnNames, h.columnCount, funext h.columnName]
  valueByName row name := by
    rw [Tabular.valueByName, Tabular.valueByName, h.columnIndex, funext (h.value row)]
  rowValues row := by
    rw [Tabular.rowValues, Tabular.rowValues, h.rowCount, h.columnCount, funext (h.value row)]
  columnValuesByName name := by
    rw [Tabular.columnValuesByName, Tabular.columnValuesByName, h.columnIndex,
      funext h.columnValues]

/-- The table has a flat copy, and whatever can be asked of both is answered alike. -/
def Copied (t : τ) : Prop := ∃ u, FlatTable.ofTable t = .ok u ∧ Agree t u

end Tabular

/-! ## Sound flat tables -/

namespace FlatTable

variable {τ : Type} [Tabular τ] {t : τ} {u : FlatTable} {instants : List Int}
  {columns : List NamedColumn}

/-- The columns are as long as there are instants, and no two have one name. -/
structure Sound (u : FlatTable) : Prop where
  lengths : ∀ c ∈ u.columns, c.values.length = u.instants.length
  nodup : u.names.Nodup

theorem check_eq_ok_iff {seen : List String} : check instants seen columns = .ok () ↔
    (∀ c ∈ columns, c.values.length = instants.length) ∧
      (columns.map NamedColumn.name).Nodup ∧ ∀ c ∈ columns, c.name ∉ seen := by
  induction columns generalizing seen with
  | nil => simp [check]
  | cons c columns ih =>
    rw [check]
    by_cases hlength : c.values.length = instants.length
    case neg => simp [hlength]
    by_cases hseen : c.name ∈ seen
    case pos => simp [hlength, hseen]
    rw [if_neg (not_not_intro hlength), if_neg hseen, ih, List.forall_mem_cons,
      List.forall_mem_cons, and_iff_right hlength, and_iff_right hseen, List.map_cons,
      List.nodup_cons, and_assoc]
    refine and_congr_right fun _ => ?_
    constructor
    · rintro ⟨hnodup, hnew⟩
      refine ⟨fun hmem => ?_, hnodup, fun d hd hmem => hnew d hd (List.mem_cons_of_mem _ hmem)⟩
      obtain ⟨d, hd, heq⟩ := List.mem_map.mp hmem
      exact hnew d hd (heq ▸ List.mem_cons_self ..)
    · rintro ⟨hnot, hnodup, hnew⟩
      refine ⟨hnodup, fun d hd hmem => ?_⟩
      rcases List.mem_cons.mp hmem with heq | hmem
      · exact hnot (heq ▸ List.mem_map_of_mem hd)
      · exact hnew d hd hmem

theorem make_of_sound (h : Sound ⟨instants, columns⟩) :
    make instants columns = .ok ⟨instants, columns⟩ := by
  have hcheck : check instants [] columns = .ok () :=
    check_eq_ok_iff.mpr ⟨h.lengths, h.nodup, by simp⟩
  rw [make, hcheck]
  rfl

theorem sound_of_make (h : make instants columns = .ok u) : u.Sound := by
  cases hcheck : check instants [] columns with
  | error fault =>
    rw [make, hcheck] at h
    cases h
  | ok _ =>
    rw [make, hcheck] at h
    cases h
    obtain ⟨hlengths, hnodup, -⟩ := check_eq_ok_iff.mp hcheck
    exact ⟨hlengths, hnodup⟩

theorem ofTable_congr {σ : Type} [Tabular σ] {s : σ} (h : Tabular.Alike s t) :
    ofTable s = ofTable t := by
  rw [ofTable, ofTable, h.rowCount, h.columnCount, funext h.instant, funext h.columnName,
    funext h.columnKind, funext h.columnValues]

/-- A sound flat table is its own copy. -/
theorem ofTable_self (h : u.Sound) : ofTable u = .ok u := by
  have hinstants : (List.range (Tabular.rowCount u)).mapM (Tabular.instant u) = .ok u.instants :=
    mapM_range_eq_ok fun row t ht => Tabular.element_eq_ok_iff.mpr ht
  have hcolumns : ((List.range (Tabular.columnCount u)).mapM fun col => do
      return (⟨← Tabular.columnName u col, ← Tabular.columnKind u col,
        ← Tabular.columnValues u col⟩ : NamedColumn)) = .ok u.columns := by
    refine mapM_range_eq_ok fun col c hc => ?_
    have hcolumn : Tabular.element .column u.columns col = .ok c :=
      Tabular.element_eq_ok_iff.mpr hc
    simp only [Tabular.columnName, Tabular.columnKind, Tabular.columnValues, hcolumn]
    rfl
  rw [ofTable, hinstants, hcolumns]
  exact make_of_sound h

theorem ofTable_of_alike (h : Tabular.Alike t u) (hu : u.Sound) : ofTable t = .ok u :=
  (ofTable_congr h).trans (ofTable_self hu)

theorem copied_of_alike (h : Tabular.Alike t u) (hu : u.Sound) : Tabular.Copied t :=
  ⟨u, ofTable_of_alike h hu, h.agree⟩

end FlatTable

/-! ## Pages -/

namespace Page

/-- The page's columns in name order. -/
def flat (p : Page) : FlatTable :=
  ⟨p.instants, p.columns.entries.map fun e => ⟨e.1, e.2.kind, e.2.values⟩⟩

theorem names_flat (p : Page) : p.flat.names = p.columns.keys := by
  simp [flat, FlatTable.names, SortedMap.keys]

theorem sound_flat (p : Page) : p.flat.Sound where
  lengths c hc := by
    obtain ⟨e, he, rfl⟩ := List.mem_map.mp hc
    exact p.lengths e he
  nodup := by
    rw [names_flat]
    exact p.columns.nodup_keys

theorem alike_flat (p : Page) : Tabular.Alike p p.flat where
  rowCount := rfl
  columnCount := (List.length_map ..).symm
  columnName col := by
    simp only [Tabular.columnName, flat, Tabular.map_element, List.map_map]
    rfl
  columnIndex name := by
    show Tabular.indexOf p.columns.keys name = Tabular.indexOf p.flat.names name
    rw [names_flat]
  columnKind col := by
    simp only [Tabular.columnKind, flat, SortedMap.values, Tabular.map_element, List.map_map]
    rfl
  instant _ := rfl
  value row col := by
    have hpage : Tabular.element .column p.columns.values col =
        (Tabular.element .column p.columns.entries col).map (·.2) :=
      (Tabular.map_element ..).symm
    have hflat : Tabular.element .column p.flat.columns col =
        (Tabular.element .column p.columns.entries col).map fun e =>
          ⟨e.1, e.2.kind, e.2.values⟩ :=
      (Tabular.map_element ..).symm
    simp only [Tabular.value, hpage, hflat]
    cases he : Tabular.element .column p.columns.entries col with
    | error _ => rfl
    | ok e =>
      have hlen : e.2.values.length = p.flat.instants.length :=
        p.lengths e (List.mem_of_getElem? (Tabular.element_eq_ok_iff.mp he))
      show Tabular.element .row e.2.values row =
        if row < p.flat.instants.length then .ok (e.2.values.getD row .null)
        else .error (.rowOutOfBounds row p.flat.instants.length)
      rw [← hlen]
      exact Tabular.element_eq_getD e.2.values row .null
  columnValues col := by
    simp only [Tabular.columnValues, flat, SortedMap.values, Tabular.map_element, List.map_map]
    rfl
  instants := rfl

end Page

/-! ## Books -/

namespace Book

variable {b : Book} {ps : List Page}

/-- The pages end to end, with the columns of the book. -/
def flat (b : Book) : FlatTable :=
  ⟨b.instants, b.kinds.entries.map fun e =>
    ⟨e.1, e.2, b.pages.flatMap fun p => p.valuesOrNull e.1⟩⟩

theorem names_flat (b : Book) : b.flat.names = b.sources := by
  simp [flat, FlatTable.names, sources, SortedMap.keys]

theorem length_pages (b : Book) (source : String) :
    (b.pages.flatMap fun p => p.valuesOrNull source).length = b.rowCount :=
  PagedTable.length_flatMap fun p _ => p.length_valuesOrNull source

theorem sound_flat (b : Book) : b.flat.Sound where
  lengths c hc := by
    obtain ⟨e, -, rfl⟩ := List.mem_map.mp hc
    exact (b.length_pages e.1).trans (PagedTable.length_instants b).symm
  nodup := by
    rw [names_flat]
    exact b.kinds.nodup_keys

/-- The entry of a column is either missing on both sides, or names a source of the book. -/
theorem element_flat (b : Book) (col : Nat) :
    (∃ fault, Tabular.element .column b.sources col = .error fault ∧
      Tabular.element .column b.flat.columns col = .error fault) ∨
    ∃ name kind, b.sources[col]? = some name ∧ Tabular.element .column b.flat.columns col =
      .ok ⟨name, kind, b.pages.flatMap fun p => p.valuesOrNull name⟩ := by
  rw [sources, SortedMap.keys, flat, ← Tabular.map_element, ← Tabular.map_element]
  cases he : Tabular.element .column b.kinds.entries col with
  | error fault => exact .inl ⟨fault, rfl, rfl⟩
  | ok e =>
    have hcol := Tabular.element_eq_ok_iff.mp he
    refine .inr ⟨e.1, e.2, ?_, rfl⟩
    rw [List.getElem?_map, hcol]
    rfl

theorem Binds.alike_flat (h : b.Binds ps) : Tabular.Alike (PagedTable.ofBook b) b.flat where
  rowCount := (PagedTable.length_instants b).symm
  columnCount := (List.length_map ..).trans (List.length_map ..).symm
  columnName col := by
    simp only [Tabular.columnName, flat, Tabular.map_element, List.map_map]
    rfl
  columnIndex name := by
    show Tabular.indexOf b.sources name = Tabular.indexOf b.flat.names name
    rw [names_flat]
  columnKind col := by
    simp only [Tabular.columnKind, flat, Tabular.map_element, List.map_map]
    rfl
  instant row := by
    rcases Nat.lt_or_ge row b.rowCount with hrow | hrow
    · obtain ⟨time, htime, hinstant⟩ := PagedTable.instant_ofBook hrow
      rw [hinstant]
      exact (Tabular.element_eq_ok_iff.mpr htime).symm
    · obtain ⟨-, hinstant, -⟩ := (PagedTable.refines_of_binds h).noRow row hrow
      have hlen : b.instants.length = b.rowCount := PagedTable.length_instants b
      show _ = Tabular.element .row b.instants row
      rw [hinstant, Tabular.element_of_le (hlen.trans_le hrow), hlen]
      rfl
  value row col := by
    rcases b.element_flat col with ⟨fault, hname, hflat⟩ | ⟨name, kind, hname, hflat⟩
    · have hname : Tabular.element .column (PagedTable.ofBook b).names col = .error fault := hname
      simp only [Tabular.value, hname, hflat, bind, Except.bind]
    have hcell : Tabular.value b.flat row col = Tabular.element .row
        (b.pages.flatMap fun p => p.valuesOrNull name) row := by
      rw [Tabular.element_eq_getD _ row .null, b.length_pages, ← PagedTable.length_instants]
      simp only [Tabular.value, hflat, bind, Except.bind]
      rfl
    rw [hcell]
    rcases Nat.lt_or_ge row b.rowCount with hrow | hrow
    · obtain ⟨page, p, hlocate, hp, -, hat⟩ := PagedTable.locate_eq hrow
      obtain ⟨c, v, values, -, -, hv, hvalues, hrow⟩ :=
        PagedTable.value_ofBook_on h hname hp hlocate hat
      rw [PagedTable.columnValues_ofBook hname, h.series_pages (List.mem_of_getElem? hname)]
        at hvalues
      cases hvalues
      rw [hv]
      exact (Tabular.element_eq_ok_iff.mpr hrow).symm
    · obtain ⟨hcol, -⟩ := List.getElem?_eq_some_iff.mp hname
      obtain ⟨-, -, -, hvalue⟩ := (PagedTable.refines_of_binds h).noRow row hrow
      rw [hvalue col hcol, Tabular.element_of_le ((b.length_pages name).trans_le hrow),
        b.length_pages]
      rfl
  columnValues col := by
    rcases b.element_flat col with ⟨fault, hname, hflat⟩ | ⟨name, kind, hname, hflat⟩
    · have hname : Tabular.element .column (PagedTable.ofBook b).names col = .error fault := hname
      simp only [Tabular.columnValues, hname, hflat, bind, Except.bind, Except.map]
    · rw [PagedTable.columnValues_ofBook hname, h.series_pages (List.mem_of_getElem? hname)]
      simp only [Tabular.columnValues, hflat, Except.map]
  instants := rfl

end Book

/-! ## All tables -/

namespace FlatTable

/-- Every table has a copy that answers alike: a page, the table of a book of pages or of no page
at all, such a table once it is cleared, and a flat table itself. -/
theorem copy_agrees :
    (∀ p : Page, Tabular.Copied p) ∧
    (∀ ps b, Book.ofPages ps = .ok b → Tabular.Copied (PagedTable.ofBook b)) ∧
    (∀ t : PagedTable, Tabular.Copied t.clear) ∧
    Tabular.Copied (PagedTable.ofBook Book.empty) ∧
    ∀ instants columns t, make instants columns = .ok t → Tabular.Copied t := by
  have hempty : Tabular.Copied (PagedTable.ofBook Book.empty) :=
    copied_of_alike PagedTable.binds_empty.alike_flat (Book.sound_flat Book.empty)
  refine ⟨fun p => ?page, fun ps b h => ?book, fun _ => hempty, hempty,
    fun instants columns t h => ?flat⟩
  case page => exact copied_of_alike p.alike_flat p.sound_flat
  case book => exact copied_of_alike (Book.ofPages_ok h).2.alike_flat b.sound_flat
  case flat => exact copied_of_alike (Tabular.Alike.refl t) (sound_of_make h)

/-- Two pages that were padded, and columns that do not stand in name order. -/
theorem copy_agrees_padded :
    (∃ b, Book.ofPages [Book.evening, Book.morning] = .ok b ∧
      Tabular.Copied (PagedTable.ofBook b)) ∧
    ∃ t, make [0, 5] [⟨"load", .int, [.int 1, .null]⟩, ⟨"flow", .bool, [.null, .bool true]⟩] =
      .ok t ∧ Tabular.Copied t := by
  obtain ⟨-, hbooks, -, -, hflat⟩ := copy_agrees
  have hmake : make [0, 5] [⟨"load", .int, [.int 1, .null]⟩,
      ⟨"flow", .bool, [.null, .bool true]⟩] = .ok ⟨[0, 5], _⟩ := rfl
  refine ⟨?book, _, hmake, hflat _ _ _ hmake⟩
  cases hb : Book.ofPages [Book.evening, Book.morning] with
  | error fault =>
    have hread : (Book.ofPages [Book.evening, Book.morning]).map Book.rowCount = .ok 3 := by cbv
    rw [hb] at hread
    cases hread
  | ok b => exact ⟨b, rfl, hbooks _ b hb⟩

end FlatTable

end SeriesTable
