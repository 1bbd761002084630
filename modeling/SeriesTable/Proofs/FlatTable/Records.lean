import SeriesTable.FlatTable.Csv
import SeriesTable.Proofs.FlatTable.Copy
import SeriesTable.Proofs.Value.Bare

/-
  The records of a flat table's text. Quotes are decided for strings only, but no other value's text
  needs any, so every field is a written one (`cellField_eq`), the text is the written form of the
  table's field texts (`csv_eq_write`) and reads back to them.

  Main statement: `csv_decodes`, with the records one by one.
-/

namespace SeriesTable.FlatTable

variable {t : FlatTable}

/-- The texts of the fields: the header, then a record for every instant. -/
def texts (t : FlatTable) : List (List String) :=
  ("timestamp" :: t.names) :: t.instants.zipIdx.map fun (instant, i) =>
    toString instant :: (t.row i).map cellText

theorem cellField_eq (v : Value) : cellField v = Csv.field (cellText v).toList := by
  have hbare (h : ∀ s, v ≠ .string s) : v.text.toList = Csv.field v.text.toList :=
    (Csv.field_of_bare (Value.bare_text h)).symm
  cases v with
  | string s => rfl
  | null => rfl
  | bool _ | int _ | long _ | float _ | double _ | timestamp _ =>
    exact hbare fun s hs => by cases hs

theorem csvHeader_eq (t : FlatTable) :
    t.csvHeader = Csv.writeRecord (("timestamp" :: t.names).map String.toList) := by
  have hbare : Csv.field "timestamp".toList = "timestamp".toList := Csv.field_of_bare (by decide)
  rw [csvHeader, Csv.writeRecord, List.map_cons, List.map_cons, hbare, names, List.map_map,
    List.map_map]
  rfl

theorem csvRow_eq (instant : Int) (values : List Value) :
    csvRow instant values =
      Csv.writeRecord ((toString instant :: values.map cellText).map String.toList) := by
  have hbare : Csv.field (toString instant).toList = (toString instant).toList :=
    Csv.field_of_bare (Csv.bare_int instant)
  rw [csvRow, Csv.writeRecord, List.map_cons, List.map_cons, hbare, List.map_map, List.map_map,
    funext cellField_eq]
  rfl

/-- The text of a table is the written form of its field texts. -/
theorem csv_eq_write (t : FlatTable) : t.csv = Csv.write t.texts := by
  rw [csv, Csv.write, texts, List.flatMap_cons, List.flatMap_map, csvHeader_eq]
  simp only [csvRow_eq]

theorem read_csv (t : FlatTable) : Csv.read t.csv = some t.texts := by
  rw [csv_eq_write]
  refine Csv.read_write fun record hrecord => ?_
  rcases List.mem_cons.mp hrecord with rfl | hrow
  · exact List.cons_ne_nil _ _
  · obtain ⟨_, -, rfl⟩ := List.mem_map.mp hrow
    exact List.cons_ne_nil _ _

theorem length_of_mem_texts {record : List String} (h : record ∈ t.texts) :
    record.length = t.columns.length + 1 := by
  rcases List.mem_cons.mp h with rfl | hrow
  · simp [names]
  · obtain ⟨_, -, rfl⟩ := List.mem_map.mp hrow
    simp [row]

theorem getElem?_texts {i : Nat} {instant : Int} (h : t.instants[i]? = some instant) :
    t.texts[i + 1]? = some (toString instant :: (t.row i).map cellText) := by
  rw [texts, List.getElem?_cons_succ, List.getElem?_map, List.getElem?_zipIdx, h]
  simp

/-- Every column of a sound table has a value at every instant. -/
theorem Sound.row_eq (h : t.Sound) {i : Nat} (hi : i < t.instants.length) :
    t.columns.map (fun c => c.values[i]?) = (t.row i).map some := by
  rw [row, List.map_map]
  refine List.map_congr_left fun c hc => ?_
  have hlength : i < c.values.length := by rwa [h.lengths c hc]
  simp [hlength]

theorem eq_of_make {instants : List Int} {columns : List NamedColumn}
    (h : make instants columns = .ok t) : t = ⟨instants, columns⟩ := by
  unfold make at h
  cases hcheck : check instants [] columns <;> rw [hcheck] at h <;> cases h
  rfl

/-! ## Rendered tables -/

/-- The text of a table reads back to a header and a record for every instant, whatever the names
and values are, so tables whose field texts differ never have one text. -/
theorem csv_decodes {instants : List Int} {columns : List NamedColumn}
    (h : make instants columns = .ok t) :
    Csv.read t.csv = some t.texts ∧
    t.texts.length = instants.length + 1 ∧
    (∀ record ∈ t.texts, record.length = columns.length + 1) ∧
    t.texts[0]? = some ("timestamp" :: columns.map NamedColumn.name) ∧
    (∀ i instant, instants[i]? = some instant → ∃ values : List Value,
      columns.map (fun c => c.values[i]?) = values.map some ∧
      t.texts[i + 1]? = some (toString instant :: values.map cellText)) ∧
    ∀ instants' columns' u, make instants' columns' = .ok u → t.texts ≠ u.texts →
      t.csv ≠ u.csv := by
  have hsound := sound_of_make h
  obtain rfl := eq_of_make h
  refine ⟨read_csv _, by simp [texts], fun record => length_of_mem_texts, rfl, ?_, ?_⟩
  · intro i instant hi
    have hrow := hsound.row_eq (List.getElem?_eq_some_iff.mp hi).1
    exact ⟨_, hrow, getElem?_texts hi⟩
  · intro instants' columns' u _ hne heq
    apply hne
    have hread := read_csv u
    rw [← heq, read_csv] at hread
    exact Option.some.inj hread

/-- Names and strings with a comma, a line feed, a carriage return and a quote, and a missing value
beside an empty string. -/
theorem csv_decodes_quoted :
    let columns : List NamedColumn :=
      [⟨"a,b", .string, [.string "x\ny,\"z\"", .string ""]⟩, ⟨"\"", .long, [.null, .long (-7)]⟩,
        ⟨"\r", .string, [.string "\r", .string "\""]⟩]
    let t : FlatTable := ⟨[-5, 10], columns⟩
    make [-5, 10] columns = .ok t ∧
    t.csv = "timestamp,\"a,b\",\"\"\"\",\r\n-5,\"x\ny,\"\"z\"\"\",,\r\n10,,-7,\"\"\"\"\n" ∧
    Csv.read t.csv = some [["timestamp", "a,b", "\"", "\r"], ["-5", "x\ny,\"z\"", "", "\r"],
      ["10", "", "-7", "\""]] :=
  have hmade : make [-5, 10] _ = .ok _ := by decide
  ⟨hmade, by decide, (csv_decodes hmade).1.trans (by decide)⟩

end SeriesTable.FlatTable
