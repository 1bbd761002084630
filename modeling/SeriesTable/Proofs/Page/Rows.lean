import Mathlib.Data.List.GetD
import SeriesTable.Proofs.Block.Samples
import SeriesTable.Proofs.Lists

/-
  Rows of a merged axis. Halving finds an instant among increasing ones exactly where it stands
  (`row?_eq_some_iff`), so the search for a row fails only for an instant that the axis does not
  have (`rowOn_eq_error_iff`). Values filled into the rows of their instants are known where nothing
  was known before (`known?_fillRows`).
-/

namespace SeriesTable

namespace Page

variable {instants : List Int} {t : Int} {low high i : Nat}

/-! ## The search -/

theorem le_of_le (hi : Instant.Increasing instants) {j k : Nat} (hk : k < instants.length)
    (hjk : j ≤ k) : instants[j] ≤ instants[k] := by
  rcases Nat.lt_or_eq_of_le hjk with hlt | rfl
  · exact Int.le_of_lt (List.pairwise_iff_getElem.mp hi j k (by omega) hk hlt)
  · exact Int.le_refl _

/-- What halving finds stands there. -/
theorem getElem?_of_rowIn (hhigh : high ≤ instants.length)
    (h : rowIn instants t low high = some i) :
    instants[i]? = some t := by
  fun_induction rowIn instants t low high with
  | case1 low high hlt middle hless ih => exact ih hhigh h
  | case2 low high hlt middle hsame =>
    have hmiddle : middle < instants.length := by omega
    rw [List.getD_eq_getElem _ _ hmiddle] at hsame
    obtain rfl := Option.some.inj h
    rw [List.getElem?_eq_getElem hmiddle, Std.LawfulEqOrd.eq_of_compare hsame]
  | case3 low high hlt middle hmore ih => exact ih (by omega) h
  | case4 low high hlt => cases h

/-- Increasing instants are never halved so that the place of the one looked for is left out. -/
theorem rowIn_of_getElem? (hi : Instant.Increasing instants) (hhigh : high ≤ instants.length)
    (hlow : low ≤ i) (hih : i < high) (h : instants[i]? = some t) :
    rowIn instants t low high = some i := by
  obtain ⟨hlength, rfl⟩ := List.getElem?_eq_some_iff.mp h
  fun_induction rowIn instants instants[i] low high with
  | case1 low high hlh middle hless ih =>
    have hmiddle : middle < instants.length := by omega
    rw [List.getD_eq_getElem _ _ hmiddle, Int.compare_eq_lt] at hless
    have hmi : middle < i := Nat.lt_of_not_le fun him => by
      have := le_of_le hi hmiddle him
      omega
    exact ih hhigh hmi hih
  | case2 low high hlh middle hsame =>
    have hmiddle : middle < instants.length := by omega
    rw [List.getD_eq_getElem _ _ hmiddle] at hsame
    have hequal : instants[middle]? = instants[i]? := by
      rw [List.getElem?_eq_getElem hmiddle, List.getElem?_eq_getElem hlength,
        Std.LawfulEqOrd.eq_of_compare hsame]
    exact congrArg some ((List.getElem?_inj hmiddle hi.nodup).mp hequal)
  | case3 low high hlh middle hmore ih =>
    have hmiddle : middle < instants.length := by omega
    rw [List.getD_eq_getElem _ _ hmiddle, Int.compare_eq_gt] at hmore
    have him : i < middle := Nat.lt_of_not_le fun hmi => by
      have := le_of_le hi hlength hmi
      omega
    exact ih (by omega) hlow him
  | case4 low high hlh => omega

theorem row?_eq_some_iff (hi : Instant.Increasing instants) :
    row? instants t = some i ↔ instants[i]? = some t := by
  refine ⟨getElem?_of_rowIn (Nat.le_refl _), fun h => ?_⟩
  have hlength := (List.getElem?_eq_some_iff.mp h).1
  exact rowIn_of_getElem? hi (Nat.le_refl _) (Nat.zero_le _) hlength h

theorem row?_eq_none_iff (hi : Instant.Increasing instants) :
    row? instants t = none ↔ t ∉ instants := by
  rw [Option.eq_none_iff_forall_ne_some, List.mem_iff_getElem?, not_exists]
  exact forall_congr' fun i => not_congr (row?_eq_some_iff hi)

/-- An increasing axis refuses the instants that it does not have. -/
theorem rowOn_eq_error_iff (hi : Instant.Increasing instants) :
    rowOn instants t = .error (.misuse (.missingInstant t)) ↔ t ∉ instants := by
  rw [← row?_eq_none_iff hi, rowOn]
  cases row? instants t <;> simp

/-- Every search on an axis that has all the instants succeeds. -/
theorem mapM_rowOn {ts : List Int} (hi : Instant.Increasing instants)
    (h : ∀ t ∈ ts, t ∈ instants) :
    ts.mapM (rowOn instants) = .ok (ts.filterMap (row? instants)) := by
  induction ts with
  | nil => rfl
  | cons t ts ih =>
    rw [List.forall_mem_cons] at h
    obtain ⟨row, hrow⟩ := List.mem_iff_getElem?.mp h.1
    have hfound := (row?_eq_some_iff hi).mpr hrow
    have hrow : rowOn instants t = .ok row := by rw [rowOn, hfound]
    rw [List.mapM_cons, hrow, ih h.2, List.filterMap_cons_some hfound]
    rfl

end Page

/-! ## Filling -/

namespace Column

variable {c : Column} {instants : List Int} {row : Nat} {v : Value}

@[simp] theorem kind_fill (c : Column) (row : Nat) (v : Value) : (c.fill row v).kind = c.kind := by
  unfold fill
  split <;> rfl

@[simp] theorem length_fill (c : Column) (row : Nat) (v : Value) :
    (c.fill row v).length = c.length := by
  unfold fill length
  split
  · rfl
  · exact List.length_modify ..

theorem fillRows_cons (c : Column) (v : Value) (vs : List Value) (row : Nat) (rows : List Nat) :
    c.fillRows (v :: vs) (row :: rows) = (c.fill row v).fillRows vs rows := rfl

@[simp] theorem kind_fillRows (c : Column) (vs : List Value) (rows : List Nat) :
    (c.fillRows vs rows).kind = c.kind := by
  induction rows generalizing c vs with
  | nil => cases vs <;> rfl
  | cons row rows ih =>
    cases vs with
    | nil => rfl
    | cons v vs => rw [fillRows_cons, ih, kind_fill]

@[simp] theorem length_fillRows (c : Column) (vs : List Value) (rows : List Nat) :
    (c.fillRows vs rows).length = c.length := by
  induction rows generalizing c vs with
  | nil => cases vs <;> rfl
  | cons row rows ih =>
    cases vs with
    | nil => rfl
    | cons v vs => rw [fillRows_cons, ih, length_fill]

/-- A row that is filled keeps what is known there, and the others stay as they are. -/
theorem getElem?_fill (h : row < c.length) (v : Value) (i : Nat) :
    (c.fill row v).values[i]?.bind Value.known? =
      (c.values[i]?.bind Value.known?).or (if row = i then v.known? else none) := by
  unfold fill
  by_cases hv : v.isNull
  · simp [hv, Value.known?]
  rw [if_neg hv, List.getElem?_modify]
  by_cases hi : row = i
  · subst hi
    simp only [if_pos, List.getElem?_eq_getElem (show row < c.values.length from h),
      Option.map_eq_map, Option.map_some, Option.bind_some, Value.known?]
    split <;> simp_all
  · simp [hi]

/-- Where nothing is known yet, a filled column knows the new value. -/
theorem known?_fill {u : Int} (hi : Instant.Increasing instants) (hc : c.length = instants.length)
    (hrow : instants[row]? = some u) (v : Value) (t : Int) :
    (c.fill row v).known? instants t =
      (c.known? instants t).or (if u = t then v.known? else none) := by
  by_cases ht : t ∈ instants
  · obtain ⟨i, hget⟩ := List.mem_iff_getElem?.mp ht
    have hlength := (List.getElem?_eq_some_iff.mp hrow).1
    have hsame : row = i ↔ u = t := by
      constructor
      · rintro rfl
        exact Option.some.inj (hrow.symm.trans hget)
      · rintro rfl
        exact (List.getElem?_inj hlength hi.nodup).mp (hrow.trans hget.symm)
    rw [known?_eq_bind hi.nodup hget, known?_eq_bind hi.nodup hget, getElem?_fill (hc ▸ hlength)]
    simp only [hsame]
  · have hnone {d : Column} : d.known? instants t = none :=
      knownAt_eq_none fun s hs heq => ht (heq ▸ (List.of_mem_zip hs).1)
    have hu : u ≠ t := fun heq => ht (heq ▸ List.mem_of_getElem? hrow)
    rw [hnone, hnone, if_neg hu]
    rfl

/-- Where nothing is known yet, a column knows the samples that are filled into the rows of their
instants. -/
theorem known?_fillRows (hi : Instant.Increasing instants) (hc : c.length = instants.length)
    {ts : List Int} (hts : ∀ t ∈ ts, t ∈ instants) (vs : List Value) (t : Int) :
    (c.fillRows vs (ts.filterMap (Page.row? instants))).known? instants t =
      (c.known? instants t).or (knownAt (ts.zip vs) t) := by
  induction ts generalizing c vs with
  | nil => cases vs <;> simp [fillRows, knownAt]
  | cons u ts ih =>
    rw [List.forall_mem_cons] at hts
    obtain ⟨row, hrow⟩ := List.mem_iff_getElem?.mp hts.1
    rw [List.filterMap_cons_some ((Page.row?_eq_some_iff hi).mpr hrow)]
    cases vs with
    | nil => simp [fillRows, knownAt]
    | cons v vs =>
      rw [fillRows_cons, ih ((length_fill ..).trans hc) hts.2, known?_fill hi hc hrow,
        List.zip_cons_cons, knownAt_cons, Option.or_assoc]

end Column

end SeriesTable
