import SeriesTable.PagedTable
import SeriesTable.Proofs.Block.Samples
import SeriesTable.Proofs.SortedMap.Lookup
import SeriesTable.Proofs.Tabular.Access

/-
  Rows of paged tables. The row starts of the pages locate a row: the page found holds it, and
  whatever has one element for each row of a page reads there as it does in the concatenation of all
  pages (`At`, `localRow_eq`). So a table is its book with the pages laid end to end:
  `instant_ofBook` and `value_ofBook` say what each row has.
-/

namespace SeriesTable.PagedTable

/-! ## Rows before pages -/

/-- The number of rows of some pages. -/
def rowsOf (ps : List Page) : Nat := ps.foldr (fun p n => p.rowCount + n) 0

theorem rowsOf_cons (p : Page) (ps : List Page) : rowsOf (p :: ps) = p.rowCount + rowsOf ps := rfl

theorem length_flatMap {α : Type} {f : Page → List α} {ps : List Page}
    (h : ∀ p ∈ ps, (f p).length = p.rowCount) : (ps.flatMap f).length = rowsOf ps := by
  induction ps with
  | nil => rfl
  | cons p ps ih =>
    rw [List.forall_mem_cons] at h
    rw [List.flatMap_cons, List.length_append, ih h.2, h.1]
    rfl

/-- Row `row` of the pages is row `i` of the page `p`: lists of one element for each row have the
same element there. -/
def At (ps : List Page) (row : Nat) (p : Page) (i : Nat) : Prop :=
  p ∈ ps ∧ i < p.rowCount ∧ ∀ {α : Type} (f : Page → List α),
    (∀ p ∈ ps, (f p).length = p.rowCount) → (ps.flatMap f)[row]? = (f p)[i]?

theorem at_of_lt {p : Page} {ps : List Page} {row : Nat} (h : row < p.rowCount) :
    At (p :: ps) row p row := by
  refine ⟨List.mem_cons_self .., h, ?_⟩
  intro α f hf
  rw [List.flatMap_cons, List.getElem?_append_left]
  rwa [hf p (List.mem_cons_self ..)]

theorem At.cons {p q : Page} {ps : List Page} {row i : Nat} (h : At ps row q i) :
    At (p :: ps) (p.rowCount + row) q i := by
  obtain ⟨hmem, hi, heq⟩ := h
  refine ⟨List.mem_cons_of_mem _ hmem, hi, ?_⟩
  intro α f hf
  rw [List.forall_mem_cons] at hf
  rw [List.flatMap_cons, List.getElem?_append_right (by omega), hf.1, Nat.add_sub_cancel_left]
  exact heq f hf.2

/-- The last page that starts at or before a row holds it. The induction is on the pages, with the
rows before them generalised. -/
theorem at_startsFrom {ps : List Page} {rows row : Nat} (hle : rows ≤ row)
    (hlt : row < rows + rowsOf ps) :
    ∃ k p, ((startsFrom rows ps).takeWhile fun first => first ≤ row).length = k + 1 ∧
      ps[k]? = some p ∧ (startsFrom rows ps)[k]? = some (rows + rowsOf (ps.take k)) ∧
      rows + rowsOf (ps.take k) ≤ row ∧
      At ps (row - rows) p (row - (rows + rowsOf (ps.take k))) := by
  induction ps generalizing rows with
  | nil =>
    simp only [rowsOf, List.foldr_nil] at hlt
    omega
  | cons p ps ih =>
    rw [rowsOf_cons] at hlt
    rw [startsFrom, List.takeWhile_cons_of_pos (by simpa using hle), List.length_cons]
    by_cases hhere : row < rows + p.rowCount
    · have hnone : ((startsFrom (rows + p.rowCount) ps).takeWhile
          fun first => first ≤ row) = [] := by
        cases ps with
        | nil => rfl
        | cons q ps =>
          rw [startsFrom, List.takeWhile_cons_of_neg]
          rw [decide_eq_true_eq]
          omega
      refine ⟨0, p, ?_, rfl, rfl, hle, at_of_lt (by omega)⟩
      rw [hnone]
      rfl
    · obtain ⟨k, q, hk, hq, hfirst, hbefore, hat⟩ :=
        @ih (rows + p.rowCount) (by omega) (by omega)
      have htake : rows + rowsOf ((p :: ps).take (k + 1)) =
          rows + p.rowCount + rowsOf (ps.take k) := by
        rw [List.take_succ_cons, rowsOf_cons, Nat.add_assoc]
      have hrow : row - rows = p.rowCount + (row - (rows + p.rowCount)) := by omega
      refine ⟨k + 1, q, by rw [hk], hq, ?_, ?_, ?_⟩
      · rw [htake]
        exact hfirst
      · rw [htake]
        exact hbefore
      · rw [htake, hrow]
        exact hat.cons

variable {b : Book} {row col : Nat}

theorem locate_eq (h : row < b.rowCount) :
    ∃ k p, (ofBook b).locate row = .ok (k, row - rowsOf (b.pages.take k)) ∧
      b.pages[k]? = some p ∧ rowsOf (b.pages.take k) ≤ row ∧
      At b.pages row p (row - rowsOf (b.pages.take k)) := by
  obtain ⟨k, p, hk, hp, hfirst, hle, hat⟩ :=
    @at_startsFrom b.pages 0 row (Nat.zero_le row) (by rw [Nat.zero_add]; exact h)
  rw [Nat.zero_add] at hfirst hle hat
  refine ⟨k, p, ?_, hp, hle, hat⟩
  rw [locate, if_pos (by exact h)]
  show Except.ok (((startsFrom 0 b.pages).takeWhile fun first => first ≤ row).length - 1,
    row - (startsFrom 0 b.pages).getD
      (((startsFrom 0 b.pages).takeWhile fun first => first ≤ row).length - 1) 0) = _
  rw [hk, Nat.add_sub_cancel, List.getD_eq_getElem?_getD, hfirst]
  rfl

theorem localRow_of_locate {k i : Nat} {p : Page} (hlocate : (ofBook b).locate row = .ok (k, i))
    (hp : b.pages[k]? = some p) : (ofBook b).localRow row = .ok (p, i) := by
  have hpage : (ofBook b).book.pages[k]? = some p := hp
  simp only [localRow, hlocate, bind, Except.bind, hpage]

theorem localRow_eq (h : row < b.rowCount) :
    ∃ p i, (ofBook b).localRow row = .ok (p, i) ∧ At b.pages row p i := by
  obtain ⟨k, p, hlocate, hp, -, hat⟩ := locate_eq h
  exact ⟨p, _, localRow_of_locate hlocate hp, hat⟩

/-! ## Cells -/

theorem length_instants (b : Book) : b.instants.length = b.rowCount :=
  length_flatMap fun _ _ => rfl

theorem instant_ofBook (h : row < b.rowCount) :
    ∃ t, b.instants[row]? = some t ∧ Tabular.instant (ofBook b) row = .ok t := by
  obtain ⟨p, i, hlocal, -, hi, heq⟩ := localRow_eq h
  have ht : p.instants[i]? = some p.instants[i] := List.getElem?_eq_getElem hi
  refine ⟨p.instants[i], ?_, ?_⟩
  · rw [Book.instants, heq Page.instants fun _ _ => rfl, ht]
  · simp only [Tabular.instant, hlocal, bind, Except.bind]
    exact Tabular.element_eq_ok_iff.mpr ht

/-- A cell is what the page of its row knows at the instant of the row. -/
theorem value_ofBook {name : String} (hrow : row < b.rowCount)
    (hcol : b.kinds.keys[col]? = some name) :
    ∃ p ∈ b.pages, ∃ t ∈ p.instants, b.instants[row]? = some t ∧
      Tabular.value (ofBook b) row col = .ok ((p.known? name t).getD .null) := by
  obtain ⟨p, i, hlocal, hp, hi, heq⟩ := localRow_eq hrow
  have ht : p.instants[i]? = some p.instants[i] := List.getElem?_eq_getElem hi
  refine ⟨p, hp, p.instants[i], List.getElem_mem hi, ?_, ?_⟩
  · rw [Book.instants, heq Page.instants fun _ _ => rfl, ht]
  · have hname : Tabular.element .column (ofBook b).names col = .ok name :=
      Tabular.element_eq_ok_iff.mpr hcol
    simp only [Tabular.value, hname, hlocal, bind, Except.bind, pure, Except.pure]
    rw [Page.getD_known? ht]

theorem filterMap_getElem?_range {α : Type} (xs : List α) :
    (List.range xs.length).filterMap (fun i => xs[i]?) = xs := by
  induction xs with
  | nil => rfl
  | cons x xs ih =>
    rw [List.length_cons, List.range_succ_eq_map, List.filterMap_cons, List.filterMap_map]
    exact congrArg (x :: ·) ih

theorem columnNames_ofBook (b : Book) : Tabular.columnNames (ofBook b) = b.kinds.keys := by
  have hname : (fun col => (Tabular.columnName (ofBook b) col).toOption) = fun col =>
      b.kinds.keys[col]? := by
    funext col
    show (Tabular.element .column b.kinds.keys col).toOption = _
    rw [Tabular.element]
    cases b.kinds.keys[col]? <;> rfl
  rw [Tabular.columnNames, hname]
  exact filterMap_getElem?_range b.kinds.keys

end SeriesTable.PagedTable
