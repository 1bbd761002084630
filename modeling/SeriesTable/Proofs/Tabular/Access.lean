import Mathlib.Data.List.Nodup
import SeriesTable.Proofs.Lists
import SeriesTable.Tabular

/-
  Access by index and by name. `element` gives what stands at an index and `indexOf` the index of a
  name; where there is nothing, both say so with the index or name asked for. Reading by name is
  reading at the index of the name.
-/

namespace SeriesTable.Tabular

section Lists

variable {α : Type} {dimension : Dimension} {xs : List α} {i : Nat}

theorem element_eq_ok_iff {x : α} : element dimension xs i = .ok x ↔ xs[i]? = some x := by
  rw [element]
  cases xs[i]? <;> simp

theorem element_of_le (h : xs.length ≤ i) :
    element dimension xs i = .error (.outOfBounds dimension i xs.length) := by
  rw [element, List.getElem?_eq_none h]

/-- Access with a default, where the bound is checked before. -/
theorem element_eq_getD (xs : List α) (row : Nat) (x : α) : element .row xs row =
    if row < xs.length then .ok (xs.getD row x) else .error (.rowOutOfBounds row xs.length) := by
  split
  case isTrue h =>
    rw [element_eq_ok_iff, List.getD_eq_getElem?_getD, List.getElem?_eq_getElem h,
      Option.getD_some]
  case isFalse h => exact element_of_le (Nat.le_of_not_lt h)

theorem map_element {β : Type} (f : α → β) (dimension : Dimension) (xs : List α) (i : Nat) :
    (element dimension xs i).map f = element dimension (xs.map f) i := by
  rw [element, element, List.getElem?_map, List.length_map]
  cases xs[i]? <;> rfl

theorem findIdx?_eq_none_iff {names : List String} {name : String} :
    (names.findIdx? fun n => n = name) = none ↔ name ∉ names := by
  rw [List.findIdx?_eq_none_iff]
  constructor
  · exact fun h hname => of_decide_eq_false (h name hname) rfl
  · exact fun h n hn => decide_eq_false fun heq => h (heq ▸ hn)

/-- Names that are all different are where they are found. -/
theorem indexOf_eq_ok_iff {names : List String} (h : names.Nodup) {name : String} :
    indexOf names name = .ok i ↔ names[i]? = some name := by
  rw [indexOf]
  cases hf : names.findIdx? fun n => n = name with
  | none =>
    simp only [reduceCtorEq, false_iff]
    exact fun hi => findIdx?_eq_none_iff.mp hf (List.mem_of_getElem? hi)
  | some j =>
    obtain ⟨hj, hname, -⟩ := List.findIdx?_eq_some_iff_getElem.mp hf
    have hname : names[j]? = some name := by
      rw [List.getElem?_eq_getElem hj, of_decide_eq_true hname]
    simp only [Except.ok.injEq]
    constructor
    · rintro rfl
      exact hname
    · intro hi
      exact (List.getElem?_inj hj h).mp (hname.trans hi.symm)

theorem indexOf_of_not_mem {names : List String} {name : String} (h : name ∉ names) :
    indexOf names name = .error (.noSuchColumn name) := by
  rw [indexOf, findIdx?_eq_none_iff.mpr h]

end Lists

variable {τ : Type} [Tabular τ] {t : τ} {name : String}

theorem valueByName_of_index {col : Nat} (h : columnIndex t name = .ok col) (row : Nat) :
    valueByName t row name = value t row col := by
  rw [valueByName, h]
  rfl

theorem columnValuesByName_of_index {col : Nat} (h : columnIndex t name = .ok col) :
    columnValuesByName t name = columnValues t col := by
  rw [columnValuesByName, h]
  rfl

theorem valueByName_of_error {fault : Fault} (h : columnIndex t name = .error fault) (row : Nat) :
    valueByName t row name = .error fault := by
  rw [valueByName, h]
  rfl

theorem columnValuesByName_of_error {fault : Fault} (h : columnIndex t name = .error fault) :
    columnValuesByName t name = .error fault := by
  rw [columnValuesByName, h]
  rfl

/-- A row whose cells can all be read is the list of its cells. -/
theorem rowValues_eq_ok {row : Nat} (hrow : row < rowCount t)
    (h : ∀ col < columnCount t, ∃ v, value t row col = .ok v) :
    ∃ values, rowValues t row = .ok values ∧
      values.map .ok = (List.range (columnCount t)).map (value t row) := by
  have hcells : ∀ col ∈ List.range (columnCount t),
      value t row col = .ok ((value t row col).toOption.getD .null) := by
    intro col hcol
    obtain ⟨v, hv⟩ := h col (List.mem_range.mp hcol)
    rw [hv]
    rfl
  refine ⟨_, (if_pos hrow).trans (mapM_eq_ok hcells), ?_⟩
  rw [List.map_map]
  exact List.map_congr_left fun col hcol => (hcells col hcol).symm

theorem rowValues_of_le {row : Nat} (h : rowCount t ≤ row) :
    rowValues t row = .error (.outOfBounds .row row (rowCount t)) :=
  if_neg (Nat.not_lt.mpr h)

end SeriesTable.Tabular
