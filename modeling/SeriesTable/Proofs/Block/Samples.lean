import SeriesTable.Page
import SeriesTable.Proofs.Axis.Instants

/-
  Samples as partial functions of time. `knownAt samples t` is the first sample of the instant `t`
  that is not missing; columns, blocks and pages are read through it (`known?`). With instants that
  do not repeat it is the value beside the instant, if that is not missing
  (`known?_eq_some_iff`), so a row can be read off the function (`getD_known?`).
-/

namespace SeriesTable

/-- The value, unless it is missing. -/
def Value.known? (v : Value) : Option Value := if v.isNull then none else some v

namespace Value

@[simp] theorem known?_null : null.known? = none := rfl

theorem known?_eq_some_iff {v w : Value} : v.known? = some w ↔ v = w ∧ w ≠ .null := by
  cases v <;> simp [known?, isNull] <;> rintro rfl <;> simp

@[simp] theorem getD_known? (v : Value) : v.known?.getD .null = v := by
  cases v <;> rfl

end Value

/-! ## Samples -/

/-- The first sample at an instant that is not missing. -/
def knownAt (samples : List (Int × Value)) (t : Int) : Option Value :=
  samples.findSome? fun s => if s.1 = t then s.2.known? else none

section KnownAt

variable {samples others : List (Int × Value)} {t : Int} {v : Value}

theorem knownAt_cons (s : Int × Value) (samples : List (Int × Value)) (t : Int) :
    knownAt (s :: samples) t = (if s.1 = t then s.2.known? else none).or (knownAt samples t) := by
  rw [knownAt, List.findSome?_cons]
  cases if s.1 = t then s.2.known? else none <;> rfl

theorem knownAt_eq_none (h : ∀ s ∈ samples, s.1 ≠ t) : knownAt samples t = none := by
  rw [knownAt, List.findSome?_eq_none_iff]
  intro s hs
  rw [if_neg (h s hs)]

/-- With no instant twice, the sample of the instant. -/
theorem knownAt_eq_some_iff (hd : samples.Pairwise fun a b => a.1 ≠ b.1) :
    knownAt samples t = some v ↔ (t, v) ∈ samples ∧ v ≠ .null := by
  induction samples with
  | nil => simp [knownAt]
  | cons s samples ih =>
    obtain ⟨hs, hrest⟩ := List.pairwise_cons.mp hd
    rw [knownAt_cons]
    by_cases ht : s.1 = t
    · subst ht
      have hnone : knownAt samples s.1 = none := knownAt_eq_none fun a ha => Ne.symm (hs a ha)
      have hnot : (s.1, v) ∉ samples := fun hmem => hs _ hmem rfl
      rw [if_pos rfl, hnone, Option.or_none, Value.known?_eq_some_iff, List.mem_cons]
      simp only [hnot, or_false]
      refine and_congr_left fun _ => ?_
      rw [Prod.ext_iff]
      simp [eq_comm]
    · have hne : (t, v) ≠ s := fun heq => ht (by rw [← heq])
      rw [if_neg ht, Option.none_or, ih hrest, List.mem_cons]
      simp [hne]

end KnownAt

theorem pairwise_zip {α β : Type} {R : α → α → Prop} {xs : List α} (h : xs.Pairwise R)
    (ys : List β) : (xs.zip ys).Pairwise fun a b => R a.1 b.1 := by
  induction xs generalizing ys with
  | nil => exact .nil
  | cons x xs ih =>
    cases ys with
    | nil => exact .nil
    | cons y ys =>
      obtain ⟨hx, hxs⟩ := List.pairwise_cons.mp h
      refine List.Pairwise.cons ?_ (ih hxs ys)
      intro e he
      exact hx e.1 (List.of_mem_zip he).1

/-! ## Columns -/

namespace Column

variable {c : Column} {instants : List Int} {t : Int} {v : Value}

/-- The value of a column over some instants, at one of them. -/
def known? (c : Column) (instants : List Int) (t : Int) : Option Value :=
  knownAt (instants.zip c.values) t

theorem known?_eq_some_iff (hd : instants.Nodup) :
    c.known? instants t = some v ↔
      v ≠ .null ∧ ∃ i : Nat, instants[i]? = some t ∧ c.values[i]? = some v := by
  rw [known?, knownAt_eq_some_iff (pairwise_zip hd c.values), and_comm, List.mem_iff_getElem?]
  simp only [List.getElem?_zip_eq_some]

theorem known?_eq_bind {i : Nat} (hd : instants.Nodup) (hi : instants[i]? = some t) :
    c.known? instants t = c.values[i]?.bind Value.known? := by
  refine Option.ext fun v => ?_
  rw [known?_eq_some_iff hd, Option.bind_eq_some_iff]
  constructor
  · rintro ⟨hv, j, hj, hval⟩
    obtain ⟨hi', -⟩ := List.getElem?_eq_some_iff.mp hi
    obtain rfl := (List.getElem?_inj hi' hd).mp (hi.trans hj.symm)
    exact ⟨v, hval, Value.known?_eq_some_iff.mpr ⟨rfl, hv⟩⟩
  · rintro ⟨w, hval, hw⟩
    obtain ⟨rfl, hv⟩ := Value.known?_eq_some_iff.mp hw
    exact ⟨hv, i, hi, hval⟩

theorem known?_nulls (kind : Kind) (n : Nat) : (nulls kind n).known? instants t = none := by
  rw [known?, knownAt, List.findSome?_eq_none_iff]
  intro s hs
  have hv := (List.of_mem_zip hs).2
  rw [nulls] at hv
  rw [List.eq_of_mem_replicate hv]
  simp

end Column

/-! ## Blocks and pages -/

namespace Block

/-- The block's axis is in order, and its columns have a value for every instant. -/
structure Sound (b : Block) : Prop where
  check_axis : b.axis.check = .ok ()
  lengths : ∀ source c, b.column? source = some c → c.length = b.sampleCount

theorem sound_iff {b : Block} : b.Sound ↔
    (b.instants ≠ [] ∧ Instant.Increasing b.instants) ∧
      ∀ e ∈ b.columns.entries, e.2.length = b.sampleCount := by
  rw [instants, ← Axis.check_eq_ok_iff]
  constructor
  · exact fun h =>
      ⟨h.check_axis, fun e he => h.lengths e.1 e.2 (SortedMap.find?_eq_some_iff.mpr he)⟩
  · rintro ⟨hcheck, hlengths⟩
    exact ⟨hcheck, fun source c hc => hlengths (source, c) (SortedMap.find?_eq_some_iff.mp hc)⟩

instance (b : Block) : Decidable b.Sound := decidable_of_iff _ sound_iff.symm

/-- The value of a source at an instant, unless it is missing. -/
def known? (b : Block) (source : String) (t : Int) : Option Value :=
  (b.column? source).bind fun c => c.known? b.instants t

theorem Sound.increasing {b : Block} (h : b.Sound) : Instant.Increasing b.instants :=
  (Axis.check_eq_ok_iff.mp h.check_axis).2

theorem Sound.instants_ne_nil {b : Block} (h : b.Sound) : b.instants ≠ [] :=
  (Axis.check_eq_ok_iff.mp h.check_axis).1

theorem Sound.ordered_span {b : Block} (h : b.Sound) : b.span.Ordered :=
  Axis.ordered_span h.check_axis

theorem Sound.mem_span {b : Block} (h : b.Sound) {t : Int} (ht : t ∈ b.instants) : t ∈ b.span :=
  Axis.mem_span_of_mem_instants h.check_axis ht

theorem mem_instants_of_known? {b : Block} {source : String} {t : Int} {v : Value}
    (h : b.known? source t = some v) : t ∈ b.instants := by
  obtain ⟨c, -, hknown⟩ := Option.bind_eq_some_iff.mp h
  apply Classical.byContradiction
  intro ht
  rw [Column.known?, knownAt_eq_none] at hknown
  · cases hknown
  · rintro s hs rfl
    exact ht (List.of_mem_zip hs).1

end Block

namespace Page

/-- The value of a source at an instant, unless it is missing. -/
def known? (p : Page) (source : String) (t : Int) : Option Value :=
  (p.column? source).bind fun c => c.known? p.instants t

/-- What a row has for a source is what is known at its instant. -/
theorem getD_known? {p : Page} {row : Nat} {t : Int} (h : p.instants[row]? = some t)
    (source : String) :
    ((p.column? source).bind fun c => c.values[row]?).getD .null =
      (p.known? source t).getD .null := by
  rw [known?]
  cases p.column? source with
  | none => rfl
  | some c =>
    rw [Option.bind_some, Option.bind_some, Column.known?_eq_bind p.increasing.nodup h]
    cases c.values[row]? <;> simp

end Page

end SeriesTable
