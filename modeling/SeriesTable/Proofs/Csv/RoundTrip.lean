import SeriesTable.Csv.Reader

/-
  Written text reads back. A field that needs no quotes is read as it stands; between quotes every
  character is data but the quote, which is written twice. So a written field leaves the reader at
  the end of that field, whatever stands in it (`foldlM_field`), the separator that follows ends it,
  and records of one field or more are read as they were written (`read_write`).
-/

namespace SeriesTable.Csv

/-! ## Fields -/

/-- Nothing in the text makes quotes necessary. -/
def Bare (s : List Char) : Prop := ∀ c ∈ s, ¬ NeedsQuotes c

-- Named, since characters are finitely many and may be decided one after another too.
instance (s : List Char) : Decidable (Bare s) := List.decidableBAll (fun c => ¬ NeedsQuotes c) s

theorem field_of_bare {s : List Char} (h : Bare s) : field s = s := by
  rw [field, if_neg]
  simpa [Bare] using h

theorem field_of_not_bare {s : List Char} (h : ¬ Bare s) :
    field s = '"' :: doubled s ++ ['"'] := by
  rw [field, if_pos]
  simpa [Bare] using h

theorem doubled_cons (c : Char) (s : List Char) :
    doubled (c :: s) = (if c = '"' then ['"', '"'] else [c]) ++ doubled s := rfl

namespace Reader

variable {r : Reader} {c : Char} {s : List Char}

theorem step_plain (hq : r.place ≠ .quoted) (hc : r.place ≠ .closing) (h : ¬ NeedsQuotes c) :
    r.step c = some (r.put .plain c) := by
  unfold NeedsQuotes at h
  simp only [not_or] at h
  simp [step, hq, hc, h]

theorem step_quoted (hq : r.place = .quoted) (h : c ≠ '"') :
    r.step c = some (r.put .quoted c) := by
  rw [step, if_pos hq, if_neg h]

/-- Outside quotes a comma ends the field. -/
theorem step_comma (hq : r.place ≠ .quoted) : r.step ',' = some r.endField := by
  simp [step, hq]

/-- Outside quotes a line feed ends the record. -/
theorem step_lineFeed (hq : r.place ≠ .quoted) : r.step '\n' = some r.endRecord := by
  simp [step, hq]

/-- A bare text is data from the start of a field on. -/
theorem foldlM_bare (hq : r.place ≠ .quoted) (hc : r.place ≠ .closing) (h : Bare s) :
    ∃ place, place ≠ .quoted ∧ s.foldlM step r = some { r with place, field := r.field ++ s } := by
  induction s generalizing r with
  | nil => exact ⟨r.place, hq, by simp⟩
  | cons c s ih =>
    obtain ⟨hchar, hrest⟩ := List.forall_mem_cons.mp h
    obtain ⟨place, hplace, hfold⟩ := ih (r := r.put .plain c) (by simp [put]) (by simp [put]) hrest
    refine ⟨place, hplace, ?_⟩
    rw [List.foldlM_cons, step_plain hq hc hchar]
    show s.foldlM step (r.put .plain c) = _
    rw [hfold]
    simp [put]

/-- Between quotes a doubled text is data, its quotes once. -/
theorem foldlM_doubled (hq : r.place = .quoted) :
    (doubled s).foldlM step r = some { r with field := r.field ++ s } := by
  induction s generalizing r with
  | nil => simp [doubled]
  | cons c s ih =>
    -- Both spellings of a character leave the reader between the quotes.
    have hnext : (if c = '"' then ['"', '"'] else [c]).foldlM step r = some (r.put .quoted c) := by
      by_cases h : c = '"'
      · simp [h, step, hq, put]
      · simp [h, step_quoted hq h]
    rw [doubled_cons, List.foldlM_append, hnext]
    show (doubled s).foldlM step (r.put .quoted c) = _
    rw [ih (r := r.put .quoted c) rfl]
    simp [put, hq]

end Reader

/-- A written field leaves the reader at the end of that field. -/
theorem foldlM_field {r : Reader} {s : List Char} (hs : r.place = .start) (hf : r.field = []) :
    ∃ place, place ≠ .quoted ∧
      (field s).foldlM Reader.step r = some { r with place, field := s } := by
  by_cases h : Bare s
  · rw [field_of_bare h]
    obtain ⟨place, hplace, hfold⟩ := Reader.foldlM_bare (r := r) (by simp [hs]) (by simp [hs]) h
    exact ⟨place, hplace, by rw [hfold, hf, List.nil_append]⟩
  · refine ⟨.closing, by simp, ?_⟩
    have hopen : r.step '"' = some { r with place := .quoted } := by simp [Reader.step, hs]
    have hbody : (doubled s).foldlM Reader.step { r with place := .quoted } =
        some { r with place := .quoted, field := s } := by
      rw [Reader.foldlM_doubled rfl, hf]
      rfl
    rw [field_of_not_bare h, List.cons_append, List.foldlM_cons, hopen]
    show (doubled s ++ ['"']).foldlM Reader.step { r with place := .quoted } = _
    rw [List.foldlM_append, hbody]
    simp [Reader.step]

/-! ## Records -/

theorem line_singleton (f : List Char) : line [f] = f ++ ['\n'] := by
  simp [line, List.intercalate]

theorem line_cons_cons (f g : List Char) (fs : List (List Char)) :
    line (f :: g :: fs) = f ++ ',' :: line (g :: fs) := by
  simp [line, List.intercalate]

/-- The fields of a record as a line. -/
def writeRecord (record : List (List Char)) : List Char := line (record.map field)

theorem foldlM_writeRecord {record : List (List Char)} (hne : record ≠ []) {r : Reader}
    (hs : r.place = .start) (hf : r.field = []) :
    (writeRecord record).foldlM Reader.step r =
      some ⟨.start, [], [], r.records ++ [r.record ++ record]⟩ := by
  induction record generalizing r with
  | nil => exact absurd rfl hne
  | cons s record ih =>
    obtain ⟨place, hplace, hfield⟩ := foldlM_field (r := r) (s := s) hs hf
    cases record with
    | nil =>
      rw [writeRecord, List.map_singleton, line_singleton, List.foldlM_append, hfield]
      show [('\n' : Char)].foldlM Reader.step { r with place, field := s } = _
      simp [Reader.step_lineFeed, hplace, Reader.endRecord]
    | cons s' record =>
      have hcomma : ({ r with place, field := s } : Reader).step ',' =
          some ⟨.start, [], r.record ++ [s], r.records⟩ := Reader.step_comma hplace
      rw [writeRecord, List.map_cons, List.map_cons, line_cons_cons, List.foldlM_append, hfield]
      show (',' :: line (field s' :: record.map field)).foldlM Reader.step
        { r with place, field := s } = _
      rw [List.foldlM_cons, hcomma]
      show (writeRecord (s' :: record)).foldlM Reader.step _ = _
      rw [ih (by simp) rfl rfl, List.append_assoc]
      rfl

theorem foldlM_writeRecords {records : List (List (List Char))} (hne : ∀ r ∈ records, r ≠ [])
    (before : List (List (List Char))) :
    (records.flatMap writeRecord).foldlM Reader.step ⟨.start, [], [], before⟩ =
      some ⟨.start, [], [], before ++ records⟩ := by
  induction records generalizing before with
  | nil => simp
  | cons record records ih =>
    obtain ⟨hrecord, hrest⟩ := List.forall_mem_cons.mp hne
    rw [List.flatMap_cons, List.foldlM_append, foldlM_writeRecord hrecord rfl rfl]
    show (records.flatMap writeRecord).foldlM Reader.step ⟨.start, [], [], before ++ [record]⟩ = _
    rw [ih hrest, List.append_assoc]
    rfl

/-- Records as text. -/
def write (records : List (List String)) : String :=
  String.ofList (records.flatMap fun record => writeRecord (record.map String.toList))

/-- Records with a field at least read back as they were written. -/
theorem read_write {records : List (List String)} (hne : ∀ record ∈ records, record ≠ []) :
    read (write records) = some records := by
  have hchars : ∀ r ∈ records.map (List.map String.toList), r ≠ [] := by
    intro r hr
    obtain ⟨record, hrecord, rfl⟩ := List.mem_map.mp hr
    simpa using hne record hrecord
  have hfold := foldlM_writeRecords hchars []
  rw [List.flatMap_map] at hfold
  have hread : (write records).toList.foldlM Reader.step Reader.init =
      some ⟨.start, [], [], records.map (List.map String.toList)⟩ := by
    rw [write, String.toList_ofList]
    exact hfold
  rw [read, hread]
  show some _ = _
  simp [Function.comp_def]

end SeriesTable.Csv
