import Mathlib.Data.List.Induction
import SeriesTable.Csv.Lenient
import SeriesTable.Proofs.Csv.RoundTrip

/-
  What a reader of both line endings makes of written text. Between quotes nothing is held back, and
  before a comma a held carriage return becomes data again; but at the end of a record a carriage
  return that stands bare before the line feed is taken for part of the line ending. So of every
  record the last field loses one carriage return if it ends with one and is written without quotes
  (`shortened`), and all else is read as it was written.

  Main statement: `readLenient_write`.
-/

namespace SeriesTable.Csv

/-- The text ends with a carriage return, and nothing in it makes quotes necessary. -/
def EndsBare (s : List Char) : Prop := Bare s ∧ s.getLast? = some '\r'

instance (s : List Char) : Decidable (EndsBare s) := inferInstanceAs (Decidable (_ ∧ _))

/-- The text that is read for the last field of a record. -/
def trimmed (s : List Char) : List Char := if EndsBare s then s.dropLast else s

/-- The record that is read for a written one. -/
def shortened : List (List Char) → List (List Char)
  | [] => []
  | [s] => [trimmed s]
  | s :: rest => s :: shortened rest

theorem trimmed_eq_self_iff {s : List Char} : trimmed s = s ↔ ¬ EndsBare s := by
  unfold trimmed
  split
  · rename_i h
    have hne : s ≠ [] := by
      rintro rfl
      simp [EndsBare] at h
    refine iff_of_false (fun heq => ?_) (not_not_intro h)
    have hlength := congrArg List.length heq
    have hpos := List.length_pos_iff.mpr hne
    rw [List.length_dropLast] at hlength
    omega
  · rename_i h
    exact iff_of_true rfl h

theorem shortened_eq_self_iff {record : List (List Char)} :
    shortened record = record ↔ ∀ s, record.getLast? = some s → ¬ EndsBare s := by
  induction record with
  | nil => simp [shortened]
  | cons s record ih =>
    cases record with
    | nil => simp [shortened, trimmed_eq_self_iff]
    | cons s' record =>
      rw [shortened, List.cons.injEq, and_iff_right rfl, ih, List.getLast?_cons_cons]
      exact List.cons_ne_nil _ _

namespace Lenient

variable {r : Reader} {c : Char} {s : List Char}

/-! ## Steps -/

/-- Without a carriage return outside quotes it is the plain reader. -/
theorem step_reader (h : r.place = .quoted ∨ c ≠ '\r') :
    step ⟨r, false⟩ c = (r.step c).map fun r => ⟨r, false⟩ := by
  have hnot : ¬ (r.place ≠ .quoted ∧ c = '\r') := by
    rintro ⟨hq, hc⟩
    exact h.elim hq fun hne => hne hc
  simp [step, settle, accept, hnot]

/-- Whatever is held back becomes data before a character that is no line feed. -/
theorem step_of_settle {l : Lenient} (h : l.settle = some r) (hc : c ≠ '\n') :
    l.step c = accept r c := by
  simp [step, hc, h]

theorem accept_bare (hq : r.place ≠ .quoted) (hclosing : r.place ≠ .closing)
    (hc : ¬ NeedsQuotes c) (hr : c ≠ '\r') : accept r c = some ⟨r.put .plain c, false⟩ := by
  rw [accept, if_neg (fun h => hr h.2), Reader.step_plain hq hclosing hc]
  rfl

/-- Outside quotes a comma ends the field. -/
theorem accept_comma (hq : r.place ≠ .quoted) : accept r ',' = some ⟨r.endField, false⟩ := by
  rw [accept, if_neg (by simp), Reader.step_comma hq]
  rfl

/-- Outside quotes a line feed ends the record. -/
theorem accept_lineFeed (hq : r.place ≠ .quoted) : accept r '\n' = some ⟨r.endRecord, false⟩ := by
  rw [accept, if_neg (by simp), Reader.step_lineFeed hq]
  rfl

/-! ## Fields -/

/-- After a bare text all of it is data, unless a line feed follows: then a carriage return at its
end belongs to the line ending. -/
theorem foldlM_bare (hq : r.place ≠ .quoted) (hclosing : r.place ≠ .closing) (h : Bare s) :
    ∃ l place, s.foldlM step ⟨r, false⟩ = some l ∧ place ≠ .quoted ∧ place ≠ .closing ∧
      l.settle = some { r with place, field := r.field ++ s } ∧
      l.step '\n' =
        some ⟨⟨.start, [], [], r.records ++ [r.record ++ [r.field ++ trimmed s]]⟩, false⟩ := by
  induction s using List.reverseRecOn with
  | nil =>
    refine ⟨⟨r, false⟩, r.place, rfl, hq, hclosing, by simp [settle], ?_⟩
    have hend : step ⟨r, false⟩ '\n' = accept r '\n' := rfl
    rw [hend, accept_lineFeed hq, trimmed_eq_self_iff.mpr (by simp [EndsBare]), List.append_nil]
    rfl
  | append_singleton s c ih =>
    obtain ⟨hbefore, hlast⟩ := List.forall_mem_append.mp h
    have hc : ¬ NeedsQuotes c := hlast c (List.mem_singleton.mpr rfl)
    obtain ⟨l, place, hfold, hplace, hplace', hsettle, -⟩ := ih hbefore
    have hnext : (s ++ [c]).foldlM step ⟨r, false⟩ =
        accept { r with place, field := r.field ++ s } c := by
      rw [List.foldlM_append, hfold]
      show [c].foldlM step l = _
      rw [List.foldlM_cons, step_of_settle hsettle fun hn => hc (.inr (.inr hn))]
      cases accept { r with place, field := r.field ++ s } c <;> rfl
    rw [hnext]
    by_cases hr : c = '\r'
    · subst hr
      have hends : EndsBare (s ++ ['\r']) := ⟨h, List.getLast?_concat⟩
      refine ⟨⟨{ r with place, field := r.field ++ s }, true⟩, .plain, ?_, by simp, by simp, ?_, ?_⟩
      · rw [accept, if_pos ⟨hplace, rfl⟩]
      · show Reader.step _ '\r' = _
        rw [Reader.step_plain hplace hplace' hc, Reader.put, List.append_assoc]
      · have hend : step ⟨{ r with place, field := r.field ++ s }, true⟩ '\n' =
            accept { r with place, field := r.field ++ s } '\n' := rfl
        rw [hend, accept_lineFeed hplace, trimmed, if_pos hends, List.dropLast_concat]
        rfl
    · have hends : ¬ EndsBare (s ++ [c]) := by
        rintro ⟨-, hlast⟩
        rw [List.getLast?_concat] at hlast
        exact hr (Option.some.inj hlast)
      refine ⟨_, .plain, accept_bare hplace hplace' hc hr, by simp, by simp, ?_, ?_⟩
      · show some (Reader.put _ .plain c) = _
        rw [Reader.put, List.append_assoc]
      · have hend : step ⟨Reader.put { r with place, field := r.field ++ s } .plain c, false⟩ '\n' =
            accept (Reader.put { r with place, field := r.field ++ s } .plain c) '\n' := rfl
        rw [hend, accept_lineFeed (by simp [Reader.put]), trimmed_eq_self_iff.mpr hends]
        simp [Reader.endRecord, Reader.put]

/-- Between quotes nothing is held back. -/
theorem foldlM_doubled (hq : r.place = .quoted) :
    (doubled s).foldlM step ⟨r, false⟩ = some ⟨{ r with field := r.field ++ s }, false⟩ := by
  induction s generalizing r with
  | nil => simp [doubled]
  | cons c s ih =>
    have hnext : (if c = '"' then ['"', '"'] else [c]).foldlM step ⟨r, false⟩ =
        some ⟨r.put .quoted c, false⟩ := by
      by_cases h : c = '"'
      · subst h
        have hclose : step ⟨r, false⟩ '"' = some ⟨{ r with place := .closing }, false⟩ := by
          rw [step_reader (.inl hq)]
          simp [Reader.step, hq]
        have hagain : step ⟨{ r with place := .closing }, false⟩ '"' =
            some ⟨r.put .quoted '"', false⟩ := by
          rw [step_reader (.inr (by decide))]
          simp [Reader.step, Reader.put]
        simp [hclose, hagain]
      · simp [h, step_reader (.inl hq), Reader.step_quoted hq h]
    rw [doubled_cons, List.foldlM_append, hnext]
    show (doubled s).foldlM step ⟨r.put .quoted c, false⟩ = _
    rw [ih (r := r.put .quoted c) rfl]
    simp [Reader.put, hq]

/-- A written field is data as a whole before a comma, and trimmed before a line feed. -/
theorem foldlM_field (hs : r.place = .start) (hf : r.field = []) :
    ∃ l place, (field s).foldlM step ⟨r, false⟩ = some l ∧ place ≠ .quoted ∧
      l.settle = some { r with place, field := s } ∧
      l.step '\n' = some ⟨⟨.start, [], [], r.records ++ [r.record ++ [trimmed s]]⟩, false⟩ := by
  by_cases h : Bare s
  · obtain ⟨l, place, hfold, hplace, -, hsettle, hend⟩ :=
      foldlM_bare (r := r) (by simp [hs]) (by simp [hs]) h
    rw [hf, List.nil_append] at hsettle hend
    rw [field_of_bare h]
    exact ⟨l, place, hfold, hplace, hsettle, hend⟩
  · have hopen : step ⟨r, false⟩ '"' = some ⟨{ r with place := .quoted }, false⟩ := by
      rw [step_reader (.inr (by decide))]
      simp [Reader.step, hs]
    have hbody : (doubled s).foldlM step ⟨{ r with place := .quoted }, false⟩ =
        some ⟨{ r with place := .quoted, field := s }, false⟩ := by
      rw [foldlM_doubled rfl, hf]
      rfl
    have hclose : step ⟨{ r with place := .quoted, field := s }, false⟩ '"' =
        some ⟨{ r with place := .closing, field := s }, false⟩ := by
      rw [step_reader (.inr (by decide))]
      simp [Reader.step]
    refine ⟨⟨{ r with place := .closing, field := s }, false⟩, .closing, ?_, by simp, rfl, ?_⟩
    · rw [field_of_not_bare h, List.cons_append, List.foldlM_cons, hopen]
      show (doubled s ++ ['"']).foldlM step ⟨{ r with place := .quoted }, false⟩ = _
      rw [List.foldlM_append, hbody]
      simp [hclose]
    · have hend : step ⟨{ r with place := .closing, field := s }, false⟩ '\n' =
          accept { r with place := .closing, field := s } '\n' := rfl
      rw [hend, accept_lineFeed (by simp), trimmed_eq_self_iff.mpr fun hends => h hends.1]
      rfl

/-! ## Records -/

theorem foldlM_writeRecord {record : List (List Char)} (hne : record ≠ [])
    (hs : r.place = .start) (hf : r.field = []) :
    (writeRecord record).foldlM step ⟨r, false⟩ =
      some ⟨⟨.start, [], [], r.records ++ [r.record ++ shortened record]⟩, false⟩ := by
  induction record generalizing r with
  | nil => exact absurd rfl hne
  | cons s record ih =>
    obtain ⟨l, place, hfield, hplace, hsettle, hend⟩ := foldlM_field (s := s) hs hf
    cases record with
    | nil =>
      rw [writeRecord, List.map_singleton, line_singleton, List.foldlM_append, hfield]
      show ['\n'].foldlM step l = _
      rw [List.foldlM_cons, hend]
      rfl
    | cons s' record =>
      have hcomma : l.step ',' = some ⟨⟨.start, [], r.record ++ [s], r.records⟩, false⟩ := by
        rw [step_of_settle hsettle (by decide), accept_comma hplace]
        rfl
      rw [writeRecord, List.map_cons, List.map_cons, line_cons_cons, List.foldlM_append, hfield]
      show (',' :: line (field s' :: record.map field)).foldlM step l = _
      rw [List.foldlM_cons, hcomma]
      show (writeRecord (s' :: record)).foldlM step _ = _
      rw [ih (by simp) rfl rfl, List.append_assoc]
      rfl

theorem foldlM_writeRecords {records : List (List (List Char))} (hne : ∀ r ∈ records, r ≠ [])
    (before : List (List (List Char))) :
    (records.flatMap writeRecord).foldlM step ⟨⟨.start, [], [], before⟩, false⟩ =
      some ⟨⟨.start, [], [], before ++ records.map shortened⟩, false⟩ := by
  induction records generalizing before with
  | nil => simp
  | cons record records ih =>
    obtain ⟨hrecord, hrest⟩ := List.forall_mem_cons.mp hne
    rw [List.flatMap_cons, List.foldlM_append, foldlM_writeRecord hrecord rfl rfl]
    show (records.flatMap writeRecord).foldlM step
      ⟨⟨.start, [], [], before ++ [shortened record]⟩, false⟩ = _
    rw [ih hrest, List.append_assoc]
    rfl

end Lenient

/-- The texts that are read for a record of these texts. -/
def shortenedTexts (record : List String) : List String :=
  (shortened (record.map String.toList)).map String.ofList

theorem shortenedTexts_eq_self_iff {record : List String} :
    shortenedTexts record = record ↔
      ∀ s, record.getLast? = some s → ¬ EndsBare s.toList := by
  have hself : shortenedTexts record = record ↔
      shortened (record.map String.toList) = record.map String.toList := by
    constructor
    · intro h
      have hchars := congrArg (List.map String.toList) h
      rwa [shortenedTexts, List.map_map, List.map_congr_left (g := id) (by simp),
        List.map_id] at hchars
    · intro h
      rw [shortenedTexts, h, List.map_map, List.map_congr_left (g := id) (by simp), List.map_id]
  rw [hself, shortened_eq_self_iff, List.getLast?_map]
  simp

/-- Records with a field at least are read with their last fields trimmed. -/
theorem readLenient_write {records : List (List String)} (hne : ∀ record ∈ records, record ≠ []) :
    readLenient (write records) = some (records.map shortenedTexts) := by
  have hchars : ∀ r ∈ records.map (List.map String.toList), r ≠ [] := by
    intro r hr
    obtain ⟨record, hrecord, rfl⟩ := List.mem_map.mp hr
    simpa using hne record hrecord
  have hfold := Lenient.foldlM_writeRecords hchars []
  rw [List.flatMap_map] at hfold
  have hread : (write records).toList.foldlM Lenient.step Lenient.init =
      some ⟨⟨.start, [], [], (records.map (List.map String.toList)).map shortened⟩, false⟩ := by
    rw [write, String.toList_ofList]
    exact hfold
  rw [readLenient, hread]
  show some _ = _
  rw [List.map_map, List.map_map]
  rfl

end SeriesTable.Csv
