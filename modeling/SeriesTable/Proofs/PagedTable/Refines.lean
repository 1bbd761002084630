import SeriesTable.Proofs.Book.Binding
import SeriesTable.Proofs.PagedTable.Rows

/-
  A paged table against its book. The table goes from a row to a page and reads there; the book lays
  its pages end to end and is read as a whole. `Refines` says that this is the same for every row,
  on either side of every page boundary, and that whatever is out of range or unknown is refused.

  Main statement: `ofBook_refines`, for every book of pages.
-/

namespace SeriesTable.PagedTable

/-! ## The page of a row -/

/-- A row is on a page if it comes after the rows of all pages before and is one of those up to
this page. -/
def OnPage (b : Book) (row page : Nat) : Prop :=
  rowsOf (b.pages.take page) ≤ row ∧ row < rowsOf (b.pages.take (page + 1))

instance (b : Book) (row page : Nat) : Decidable (OnPage b row page) :=
  inferInstanceAs (Decidable (_ ∧ _))

theorem rowsOf_append (ps qs : List Page) : rowsOf (ps ++ qs) = rowsOf ps + rowsOf qs := by
  induction ps with
  | nil => exact (Nat.zero_add _).symm
  | cons p ps ih => rw [List.cons_append, rowsOf_cons, rowsOf_cons, ih, Nat.add_assoc]

theorem rowsOf_take_le (ps : List Page) {k l : Nat} (h : k ≤ l) :
    rowsOf (ps.take k) ≤ rowsOf (ps.take l) := by
  rw [← Nat.add_sub_cancel' h, List.take_add, rowsOf_append]
  exact Nat.le_add_right ..

variable {b : Book} {row page : Nat}

theorem onPage_unique {other : Nat} (h : OnPage b row page) (h' : OnPage b row other) :
    other = page := by
  have hle : ∀ {k l}, OnPage b row k → OnPage b row l → k ≤ l := by
    intro k l hk hl
    -- A later page starts after the rows up to this one.
    refine Nat.le_of_not_lt fun hlk => ?_
    have hrows : rowsOf (b.pages.take (l + 1)) ≤ rowsOf (b.pages.take k) :=
      rowsOf_take_le b.pages hlk
    exact Nat.lt_irrefl row (Nat.lt_of_lt_of_le hl.2 (Nat.le_trans hrows hk.1))
  exact Nat.le_antisymm (hle h' h) (hle h h')

theorem onPage_of_getElem? {p : Page} {i : Nat} (hp : b.pages[page]? = some p)
    (hi : i < p.rowCount) : OnPage b (rowsOf (b.pages.take page) + i) page := by
  obtain ⟨hlt, rfl⟩ := List.getElem?_eq_some_iff.mp hp
  have htake : rowsOf (b.pages.take (page + 1)) =
      rowsOf (b.pages.take page) + b.pages[page].rowCount := by
    rw [List.take_succ_eq_append_getElem hlt, rowsOf_append]
    rfl
  constructor
  · exact Nat.le_add_right ..
  · omega

/-! ## Refinement -/

/-- The table has the sources of the book for columns, and reads in each row what the pages of the
book have there, laid end to end. -/
structure Refines (t : PagedTable) (b : Book) : Prop where
  names : Tabular.columnNames t = b.sources
  row : ∀ row < Tabular.rowCount t, ∃ page p, t.pageOfRow row = .ok page ∧
    (∀ other, OnPage b row other ↔ other = page) ∧ b.pages[page]? = some p ∧
    (∃ time, Tabular.instant t row = .ok time ∧ (Tabular.instants t)[row]? = some time) ∧
    ∀ col name, Tabular.columnName t col = .ok name →
      ∃ c v values, p.column? name = some c ∧
        c.values[row - rowsOf (b.pages.take page)]? = some v ∧ Tabular.value t row col = .ok v ∧
        Tabular.columnValues t col = .ok values ∧ values[row]? = some v
  rowValues : ∀ row < Tabular.rowCount t, ∃ values, Tabular.rowValues t row = .ok values ∧
    values.map .ok = (List.range (Tabular.columnCount t)).map (Tabular.value t row)
  column : ∀ col < Tabular.columnCount t, ∃ name kind values,
    Tabular.columnName t col = .ok name ∧ Tabular.columnKind t col = .ok kind ∧
      b.kind name = .ok kind ∧ Tabular.columnValues t col = .ok values ∧
      b.series name = .ok values ∧ values.length = Tabular.rowCount t
  columnIndex : ∀ col name,
    Tabular.columnIndex t name = .ok col ↔ Tabular.columnName t col = .ok name
  byName : ∀ col name, Tabular.columnName t col = .ok name →
    Tabular.columnValuesByName t name = Tabular.columnValues t col ∧
      ∀ row, Tabular.valueByName t row name = Tabular.value t row col
  instants : Tabular.instants t = b.instants
  increasing : Instant.Increasing (Tabular.instants t)
  length : (Tabular.instants t).length = Tabular.rowCount t
  noRow : ∀ row, Tabular.rowCount t ≤ row →
    t.pageOfRow row = .error (.outOfBounds .row row (Tabular.rowCount t)) ∧
    Tabular.instant t row = .error (.outOfBounds .row row (Tabular.rowCount t)) ∧
    Tabular.rowValues t row = .error (.outOfBounds .row row (Tabular.rowCount t)) ∧
    ∀ col < Tabular.columnCount t,
      Tabular.value t row col = .error (.outOfBounds .row row (Tabular.rowCount t))
  noColumn : ∀ col, Tabular.columnCount t ≤ col →
    Tabular.columnName t col = .error (.outOfBounds .column col (Tabular.columnCount t)) ∧
    Tabular.columnKind t col = .error (.outOfBounds .column col (Tabular.columnCount t)) ∧
    Tabular.columnValues t col = .error (.outOfBounds .column col (Tabular.columnCount t)) ∧
    ∀ row, Tabular.value t row col = .error (.outOfBounds .column col (Tabular.columnCount t))
  noName : ∀ name, (∀ col, Tabular.columnName t col ≠ .ok name) →
    Tabular.columnIndex t name = .error (.noSuchColumn name) ∧
    Tabular.columnValuesByName t name = .error (.noSuchColumn name) ∧
    ∀ row, Tabular.valueByName t row name = .error (.noSuchColumn name)

/-! ## Columns -/

variable {col : Nat} {name : String}

theorem columnName_ofBook :
    Tabular.columnName (ofBook b) col = .ok name ↔ b.sources[col]? = some name :=
  Tabular.element_eq_ok_iff

theorem columnValues_ofBook (h : b.sources[col]? = some name) :
    Tabular.columnValues (ofBook b) col = b.series name := by
  have hname : Tabular.element .column (ofBook b).names col = .ok name :=
    Tabular.element_eq_ok_iff.mpr h
  simp only [Tabular.columnValues, hname, bind, Except.bind]
  rfl

theorem columnIndex_ofBook :
    Tabular.columnIndex (ofBook b) name = .ok col ↔
      Tabular.columnName (ofBook b) col = .ok name := by
  have hnodup : b.sources.Nodup := SortedMap.nodup_keys b.kinds
  rw [columnName_ofBook]
  exact Tabular.indexOf_eq_ok_iff hnodup

theorem kind_ofBook (h : b.sources[col]? = some name) :
    ∃ kind, Tabular.columnKind (ofBook b) col = .ok kind ∧ b.kind name = .ok kind := by
  obtain ⟨hk, rfl⟩ := List.getElem?_eq_some_iff.mp h
  have hv : col < b.kinds.values.length := by
    rwa [SortedMap.length_values, ← SortedMap.length_keys]
  have hfind : b.kinds.find? b.sources[col] = some b.kinds.values[col] :=
    SortedMap.find?_getElem_keys b.kinds hk hv
  refine ⟨b.kinds.values[col], Tabular.element_eq_ok_iff.mpr (List.getElem?_eq_getElem hv), ?_⟩
  rw [Book.kind, hfind]

/-! ## Rows -/

theorem locate_of_le (h : b.rowCount ≤ row) :
    (ofBook b).locate row = .error (.outOfBounds .row row b.rowCount) :=
  if_neg (Nat.not_lt.mpr h)

/-! ## What is refused -/

/-- A row beyond the last page is refused, whatever is read there. -/
theorem refused_of_row (hrow : Tabular.rowCount (ofBook b) ≤ row) :
    (ofBook b).pageOfRow row = .error (.outOfBounds .row row (Tabular.rowCount (ofBook b))) ∧
    Tabular.instant (ofBook b) row =
      .error (.outOfBounds .row row (Tabular.rowCount (ofBook b))) ∧
    Tabular.rowValues (ofBook b) row =
      .error (.outOfBounds .row row (Tabular.rowCount (ofBook b))) ∧
    ∀ col < Tabular.columnCount (ofBook b), Tabular.value (ofBook b) row col =
      .error (.outOfBounds .row row (Tabular.rowCount (ofBook b))) := by
  have hlocate := locate_of_le hrow
  have hlocal : (ofBook b).localRow row = .error (.outOfBounds .row row b.rowCount) := by
    simp only [localRow, hlocate, bind, Except.bind]
  refine ⟨?_, ?_, Tabular.rowValues_of_le hrow, fun col hcol => ?_⟩
  · rw [pageOfRow, hlocate]
    rfl
  · simp only [Tabular.instant, hlocal, bind, Except.bind]
    rfl
  · have hname : Tabular.element .column (ofBook b).names col = .ok (ofBook b).names[col] :=
      Tabular.element_eq_ok_iff.mpr (List.getElem?_eq_getElem hcol)
    simp only [Tabular.value, hname, hlocal, bind, Except.bind]
    rfl

/-- A column that there is not is refused, before the row is looked at. -/
theorem refused_of_column (hcol : Tabular.columnCount (ofBook b) ≤ col) :
    Tabular.columnName (ofBook b) col =
      .error (.outOfBounds .column col (Tabular.columnCount (ofBook b))) ∧
    Tabular.columnKind (ofBook b) col =
      .error (.outOfBounds .column col (Tabular.columnCount (ofBook b))) ∧
    Tabular.columnValues (ofBook b) col =
      .error (.outOfBounds .column col (Tabular.columnCount (ofBook b))) ∧
    ∀ row, Tabular.value (ofBook b) row col =
      .error (.outOfBounds .column col (Tabular.columnCount (ofBook b))) := by
  have hnone : ∀ {α : Type} {xs : List α}, xs.length = (ofBook b).names.length →
      Tabular.element .column xs col =
        .error (.outOfBounds .column col (Tabular.columnCount (ofBook b))) := by
    intro α xs hlen
    rw [Tabular.element_of_le (hlen ▸ hcol), hlen]
    rfl
  have hkinds : (ofBook b).kinds.length = (ofBook b).names.length :=
    b.kinds.length_values.trans b.kinds.length_keys.symm
  refine ⟨hnone rfl, hnone hkinds, ?_, fun row => ?_⟩
  · simp only [Tabular.columnValues, hnone rfl, bind, Except.bind]
  · simp only [Tabular.value, hnone rfl, bind, Except.bind]

theorem refused_of_name (hname : ∀ col, Tabular.columnName (ofBook b) col ≠ .ok name) :
    Tabular.columnIndex (ofBook b) name = .error (.noSuchColumn name) ∧
    Tabular.columnValuesByName (ofBook b) name = .error (.noSuchColumn name) ∧
    ∀ row, Tabular.valueByName (ofBook b) row name = .error (.noSuchColumn name) := by
  have habsent : name ∉ b.sources := by
    intro hmem
    obtain ⟨col, hcol⟩ := List.mem_iff_getElem?.mp hmem
    exact hname col (columnName_ofBook.mpr hcol)
  have hindex : Tabular.columnIndex (ofBook b) name = .error (.noSuchColumn name) :=
    Tabular.indexOf_of_not_mem habsent
  exact ⟨hindex, Tabular.columnValuesByName_of_error hindex, Tabular.valueByName_of_error hindex⟩

section Bound

variable {ps : List Page}

theorem length_series (h : b.Binds ps) (hname : name ∈ b.sources) {values : List Value}
    (hvalues : b.series name = .ok values) : values.length = b.rowCount := by
  rw [h.series_pages hname] at hvalues
  cases hvalues
  exact length_flatMap fun p _ => p.length_valuesOrNull name

/-- A cell is that of the column on its page, and the one that the whole column has in its row. -/
theorem value_ofBook_on {p : Page} (h : b.Binds ps) (hname : b.sources[col]? = some name)
    (hp : b.pages[page]? = some p)
    (hlocate : (ofBook b).locate row = .ok (page, row - rowsOf (b.pages.take page)))
    (hat : At b.pages row p (row - rowsOf (b.pages.take page))) :
    ∃ c v values, p.column? name = some c ∧
      c.values[row - rowsOf (b.pages.take page)]? = some v ∧
      Tabular.value (ofBook b) row col = .ok v ∧
      Tabular.columnValues (ofBook b) col = .ok values ∧ values[row]? = some v := by
  obtain ⟨hmem, hi, heq⟩ := hat
  have hsource := List.mem_of_getElem? hname
  obtain ⟨c, hc⟩ := h.exists_column? hsource hmem
  have hvalues : p.valuesOrNull name = c.values := by
    rw [Page.valuesOrNull, hc]
    rfl
  have hlen : row - rowsOf (b.pages.take page) < c.values.length := by
    rwa [← hvalues, Page.length_valuesOrNull]
  have hv := List.getElem?_eq_getElem hlen
  refine ⟨c, _, _, hc, hv, ?_, (columnValues_ofBook hname).trans (h.series_pages hsource), ?_⟩
  · have hcolumn : Tabular.element .column (ofBook b).names col = .ok name :=
      Tabular.element_eq_ok_iff.mpr hname
    simp only [Tabular.value, hcolumn, localRow_of_locate hlocate hp, bind, Except.bind, pure,
      Except.pure, hc, Option.bind_some, hv, Option.getD_some]
  · rw [heq (fun p => p.valuesOrNull name) fun p _ => p.length_valuesOrNull name, hvalues, hv]

theorem refines_of_binds (h : b.Binds ps) : (ofBook b).Refines b where
  names := columnNames_ofBook b
  row row hrow := by
    obtain ⟨page, p, hlocate, hp, hle, hat⟩ := locate_eq hrow
    have hpage : OnPage b row page := by
      rw [← Nat.add_sub_cancel' hle]
      exact onPage_of_getElem? hp hat.2.1
    refine ⟨page, p, ?_, ?_, hp, ?_, ?_⟩
    · rw [pageOfRow, hlocate]
      rfl
    · exact fun other => ⟨onPage_unique hpage, fun heq => heq ▸ hpage⟩
    · obtain ⟨time, htime, hinstant⟩ := instant_ofBook hrow
      exact ⟨time, hinstant, htime⟩
    · intro col name hname
      exact value_ofBook_on h (columnName_ofBook.mp hname) hp hlocate hat
  rowValues row hrow := by
    refine Tabular.rowValues_eq_ok hrow fun col hcol => ?_
    obtain ⟨page, p, hlocate, hp, -, hat⟩ := locate_eq hrow
    obtain ⟨c, v, values, -, -, hv, -⟩ :=
      value_ofBook_on h (List.getElem?_eq_getElem hcol) hp hlocate hat
    exact ⟨v, hv⟩
  column col hcol := by
    have hname : b.sources[col]? = some b.sources[col] := List.getElem?_eq_getElem hcol
    have hsource := List.mem_of_getElem? hname
    obtain ⟨kind, hkind, hdeclared⟩ := kind_ofBook hname
    have hseries := h.series_pages hsource
    exact ⟨_, kind, _, columnName_ofBook.mpr hname, hkind, hdeclared,
      (columnValues_ofBook hname).trans hseries, hseries, length_series h hsource hseries⟩
  columnIndex _ _ := columnIndex_ofBook
  byName col name hname := by
    have hindex := columnIndex_ofBook.mpr hname
    exact ⟨Tabular.columnValuesByName_of_index hindex, Tabular.valueByName_of_index hindex⟩
  instants := rfl
  increasing := by
    show Instant.Increasing b.instants
    rw [h.instants_eq]
    exact Book.increasing_flatMap_instants h.before
  length := length_instants b
  noRow _ hrow := refused_of_row hrow
  noColumn _ hcol := refused_of_column hcol
  noName _ hname := refused_of_name hname

end Bound

theorem binds_empty : Book.empty.Binds [] where
  before := .nil
  pages_eq := rfl
  kinds_iff source kind := by simp [Book.empty, Declares]

/-- The table of a book of pages, or of no page at all, refines the book. -/
theorem ofBook_refines (b : Book) (h : (∃ ps, Book.ofPages ps = .ok b) ∨ b = Book.empty) :
    (ofBook b).Refines b := by
  rcases h with ⟨ps, hps⟩ | rfl
  · exact refines_of_binds (Book.ofPages_ok hps).2
  · exact refines_of_binds binds_empty

/-- On both sides of the boundary between two pages. -/
theorem ofBook_refines_boundary :
    ∃ b, Book.ofPages [Book.evening, Book.morning] = .ok b ∧ (ofBook b).Refines b ∧
      (ofBook b).pageOfRow 0 = .ok 0 ∧ (ofBook b).pageOfRow 1 = .ok 1 ∧
      Tabular.rowValues (ofBook b) 1 = .ok [.null, .int 1] := by
  have hread : (Book.ofPages [Book.evening, Book.morning]).map (fun b =>
      ((ofBook b).pageOfRow 0, (ofBook b).pageOfRow 1, Tabular.rowValues (ofBook b) 1)) =
        .ok (.ok 0, .ok 1, .ok [.null, .int 1]) := by
    cbv
  cases hb : Book.ofPages [Book.evening, Book.morning] with
  | error fault =>
    rw [hb] at hread
    cases hread
  | ok b =>
    rw [hb] at hread
    simp only [Except.map, Except.ok.injEq, Prod.mk.injEq] at hread
    exact ⟨b, rfl, ofBook_refines b (.inl ⟨_, hb⟩), hread⟩

end SeriesTable.PagedTable
