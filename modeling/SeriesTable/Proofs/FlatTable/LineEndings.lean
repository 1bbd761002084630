import SeriesTable.Proofs.Csv.LineEndings
import SeriesTable.Proofs.FlatTable.Records

/-
  A table's text before a reader of both line endings. A carriage return makes no quotes necessary,
  so where a record's last field ends with one and has none of the characters that do, the reader
  takes it for part of the line ending: the field is read without it (`csv_loses_return`). Nothing
  else is lost.

  Main statement: `csv_lenient`, for all tables.
-/

namespace SeriesTable.FlatTable

theorem ne_nil_of_mem_texts {t : FlatTable} {record : List String} (h : record ∈ t.texts) :
    record ≠ [] := by
  have hlength := length_of_mem_texts h
  rintro rfl
  cases hlength

theorem readLenient_csv (t : FlatTable) :
    Csv.readLenient t.csv = some (t.texts.map Csv.shortenedTexts) := by
  rw [csv_eq_write]
  exact Csv.readLenient_write fun _ => ne_nil_of_mem_texts

/-- A reader of both line endings reads the field texts of every table, but for one carriage return
at the end of every record whose last text ends bare with one. It reads all texts as they were
written exactly if there is no such record. -/
theorem csv_lenient (t : FlatTable) :
    Csv.readLenient t.csv = some (t.texts.map Csv.shortenedTexts) ∧
    (Csv.readLenient t.csv = some t.texts ↔
      ∀ record ∈ t.texts, ∀ s, record.getLast? = some s → ¬ Csv.EndsBare s.toList) := by
  have hself := List.map_inj_left (l := t.texts) (f := Csv.shortenedTexts) (g := id)
  rw [List.map_id] at hself
  refine ⟨readLenient_csv t, ?_⟩
  rw [readLenient_csv, Option.some.injEq, hself]
  exact forall₂_congr fun _ _ => Csv.shortenedTexts_eq_self_iff

/-- One source with one string, which ends with a carriage return. -/
theorem csv_loses_return :
    let columns : List NamedColumn := [⟨"a", .string, [.string "x\r"]⟩]
    let t : FlatTable := ⟨[1], columns⟩
    make [1] columns = .ok t ∧
    t.csv = "timestamp,a\n1,x\r\n" ∧
    t.texts = [["timestamp", "a"], ["1", "x\r"]] ∧
    Csv.readLenient t.csv = some [["timestamp", "a"], ["1", "x"]] ∧
    Csv.readLenient t.csv ≠ some t.texts :=
  have hread := readLenient_csv ⟨[1], [⟨"a", .string, [.string "x\r"]⟩]⟩
  have hshort := hread.trans (by decide : _ = some [["timestamp", "a"], ["1", "x"]])
  ⟨by decide, by decide, by decide, hshort, by rw [hshort]; decide⟩

end SeriesTable.FlatTable
