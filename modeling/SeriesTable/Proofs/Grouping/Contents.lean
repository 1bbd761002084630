import SeriesTable.Proofs.Grouping.Batch

/-
  What a grouping holds, as a list of fragments. `Holds g fs` says that the columns of `g` are the
  fragments `fs`, each under its axis and source; the order of `fs` does not matter, so neither does
  the order in which they came (`Holds.blocks_eq`). A delivery is a fragment or a batch. Deliveries
  are accepted exactly as long as all fragments so far are compatible (`acceptAll_ok_iff`), and then
  the grouping holds them (`acceptAll_holds`).
-/

namespace SeriesTable.Grouping

/-- The fragments can stand in one grouping: each may be put into a block, and no two share axis
and source. -/
def Compatible (fs : List Fragment) : Prop := Checked fs ∧ Distinct fs

instance (fs : List Fragment) : Decidable (Compatible fs) := inferInstanceAs (Decidable (_ ∧ _))

theorem compatible_nil : Compatible [] := ⟨by simp [Checked], .nil⟩

theorem Compatible.perm {fs ds : List Fragment} (hp : fs.Perm ds) (h : Compatible fs) :
    Compatible ds := by
  refine ⟨fun f hf => h.1 f (hp.mem_iff.mpr hf), ?_⟩
  refine h.2.perm hp ?_
  intro f d hne heq
  exact hne ⟨heq.1.symm, heq.2.symm⟩

theorem compatible_perm_iff {fs ds : List Fragment} (hp : fs.Perm ds) :
    Compatible fs ↔ Compatible ds :=
  ⟨Compatible.perm hp, Compatible.perm hp.symm⟩

theorem Compatible.of_append_left {fs ds : List Fragment} (h : Compatible (fs ++ ds)) :
    Compatible fs :=
  ⟨fun f hf => h.1 f (List.mem_append_left _ hf), (List.pairwise_append.mp h.2).1⟩

/-- Of compatible fragments, one axis and source have one. -/
theorem Compatible.eq_of_mem {fs : List Fragment} (h : Compatible fs) {f d : Fragment}
    (hf : f ∈ fs) (hd : d ∈ fs) (ha : f.axis = d.axis) (hs : f.source = d.source) : f = d := by
  obtain ⟨i, hi, rfl⟩ := List.getElem_of_mem hf
  obtain ⟨j, hj, rfl⟩ := List.getElem_of_mem hd
  have hdistinct := List.pairwise_iff_getElem.mp h.2
  rcases Nat.lt_trichotomy i j with hlt | heq | hgt
  · exact absurd ⟨ha, hs⟩ (hdistinct i j hi hj hlt)
  · subst heq
    rfl
  · exact absurd ⟨ha.symm, hs.symm⟩ (hdistinct j i hj hi hgt)

/-- The columns of the grouping are the fragments. -/
structure Holds (g : Grouping) (fs : List Fragment) : Prop where
  tidy : g.Tidy
  compatible : Compatible fs
  column?_iff : ∀ axis source c, g.column? axis source = some c ↔
    ∃ f ∈ fs, f.axis = axis ∧ f.source = source ∧ f.column = c

theorem holds_empty (o : Options) : (empty o).Holds [] where
  tidy := tidy_empty o
  compatible := compatible_nil
  column?_iff := by simp [column?, blockFor, empty]

namespace Holds

variable {g h : Grouping} {fs ds : List Fragment}

theorem perm (hp : fs.Perm ds) (hg : g.Holds fs) : g.Holds ds where
  tidy := hg.tidy
  compatible := hg.compatible.perm hp
  column?_iff axis source c := by
    rw [hg.column?_iff]
    simp only [hp.mem_iff]

theorem column?_eq_none_iff (hg : g.Holds fs) {axis : Axis} {source : String} :
    g.column? axis source = none ↔ ∀ f ∈ fs, ¬ (f.axis = axis ∧ f.source = source) := by
  rw [Option.eq_none_iff_forall_ne_some]
  constructor
  · intro hnone f hf heq
    exact hnone f.column ((hg.column?_iff ..).mpr ⟨f, hf, heq.1, heq.2, rfl⟩)
  · intro hnone c hc
    obtain ⟨f, hf, ha, hs, -⟩ := (hg.column?_iff ..).mp hc
    exact hnone f hf ⟨ha, hs⟩

/-- Groupings of the same fragments hold the same blocks. -/
theorem blocks_eq (hp : fs.Perm ds) (hg : g.Holds fs) (hh : h.Holds ds) : g.blocks = h.blocks := by
  refine blocks_eq_of_column? hg.tidy hh.tidy fun axis source => Option.ext fun c => ?_
  rw [(hg.perm hp).column?_iff, hh.column?_iff]

/-- New fragments are compatible with those held if they are among themselves and each is new. -/
theorem compatible_append_iff (hg : g.Holds fs) (ds : List Fragment) :
    Compatible (fs ++ ds) ↔
      Checked ds ∧ (∀ d ∈ ds, g.column? d.axis d.source = none) ∧ Distinct ds := by
  simp only [hg.column?_eq_none_iff]
  unfold Compatible Checked Distinct
  rw [List.forall_mem_append, List.pairwise_append]
  constructor
  · rintro ⟨⟨-, hc⟩, -, hd, hcross⟩
    exact ⟨hc, fun d hd f hf => hcross f hf d hd, hd⟩
  · rintro ⟨hc, hnew, hd⟩
    exact ⟨⟨hg.compatible.1, hc⟩, hg.compatible.2, hd, fun f hf d hd => hnew d hd f hf⟩

/-- A grouping whose answers are those of `g` and then those of new fragments. -/
theorem append (hg : g.Holds fs) (hc : Compatible (fs ++ ds)) (ht : h.Tidy)
    (hcolumn : ∀ axis source, h.column? axis source = (g.column? axis source).or
      ((ds.find? fun f => f.axis = axis ∧ f.source = source).map Fragment.column)) :
    h.Holds (fs ++ ds) where
  tidy := ht
  compatible := hc
  column?_iff axis source c := by
    rw [hcolumn, Option.or_eq_some_iff, hg.column?_iff, hg.column?_eq_none_iff]
    constructor
    · rintro (⟨f, hf, heq⟩ | ⟨-, hfound⟩)
      · exact ⟨f, List.mem_append_left _ hf, heq⟩
      · obtain ⟨f, hf, rfl⟩ := Option.map_eq_some_iff.mp hfound
        have heq := List.find?_some hf
        rw [decide_eq_true_eq] at heq
        exact ⟨f, List.mem_append_right _ (List.mem_of_find?_eq_some hf), heq.1, heq.2, rfl⟩
    · rintro ⟨f, hf, rfl, rfl, rfl⟩
      rcases List.mem_append.mp hf with hf | hd
      · exact .inl ⟨f, hf, rfl, rfl, rfl⟩
      · refine .inr ⟨fun d hd' heq => ?_, ?_⟩
        · have hcross := (List.pairwise_append.mp hc.2).2.2
          exact hcross d hd' f hd heq
        · have hsome : (ds.find? fun d => d.axis = f.axis ∧ d.source = f.source).isSome :=
            List.find?_isSome.mpr ⟨f, hd, by simp⟩
          obtain ⟨d, hfound⟩ := Option.isSome_iff_exists.mp hsome
          have heq := List.find?_some hfound
          rw [decide_eq_true_eq] at heq
          have hmem := List.mem_append_right fs (List.mem_of_find?_eq_some hfound)
          rw [hfound, hc.eq_of_mem hmem (List.mem_append_right fs hd) heq.1 heq.2]
          rfl

end Holds

/-! ## Deliveries -/

/-- Fragments as they are handed to a grouping. -/
inductive Delivery where
  | single (f : Fragment)
  | batch (fs : List Fragment)
  deriving DecidableEq, Repr

/-- What is delivered, in order. -/
def Delivery.fragments : Delivery → List Fragment
  | single f => [f]
  | batch fs => fs

@[simp] theorem Delivery.fragments_batch (fs : List Fragment) : (batch fs).fragments = fs := rfl

/-- The grouping with a delivery, unless there is a fault. -/
def accept (g : Grouping) : Delivery → Except Fault Grouping
  | .single f => g.add f
  | .batch fs =>
    match (g.addBatch fs).2 with
    | none => .ok (g.addBatch fs).1
    | some fault => .error fault

/-- The grouping with deliveries one after another. -/
def acceptAll (g : Grouping) (ds : List Delivery) : Except Fault Grouping := ds.foldlM accept g

section Accept

variable {g : Grouping} {fs : List Fragment}

theorem Holds.add (hg : g.Holds fs) (f : Fragment) :
    if Compatible (fs ++ [f]) then ∃ h, g.add f = .ok h ∧ h.Holds (fs ++ [f])
    else ∃ fault, g.add f = .error fault := by
  have hiff := hg.compatible_append_iff [f]
  cases hc : f.check with
  | error fault =>
    rw [if_neg]
    · exact ⟨fault, add_eq_error_of_check hc⟩
    · intro h
      have := (hiff.mp h).1 f (List.mem_singleton_self f)
      rw [hc] at this
      cases this
  | ok _ =>
    have hadd := hg.tidy.add_eq hc
    by_cases hnew : (g.column? f.axis f.source).isSome
    · rw [if_pos hnew] at hadd
      rw [if_neg]
      · exact ⟨_, hadd⟩
      · intro h
        have := (hiff.mp h).2.1 f (List.mem_singleton_self f)
        simp [this] at hnew
    · rw [if_neg hnew] at hadd
      rw [Option.not_isSome_iff_eq_none] at hnew
      have hcompatible : Compatible (fs ++ [f]) := by
        rw [hiff]
        refine ⟨?_, ?_, List.pairwise_singleton ..⟩
        · simpa [Checked] using hc
        · simpa using hnew
      rw [if_pos hcompatible]
      refine ⟨_, hadd, hg.append hcompatible (hg.tidy.placed rfl) fun axis source => ?_⟩
      rw [column?_placed (g := g) (f := f) rfl]
      by_cases heq : axis = f.axis ∧ source = f.source
      · obtain ⟨rfl, rfl⟩ := heq
        simp [hnew]
      · have hother : ¬ (f.axis = axis ∧ f.source = source) := fun h => heq ⟨h.1.symm, h.2.symm⟩
        simp [heq, hother]

theorem Holds.addBatch (hg : g.Holds fs) (ds : List Fragment) :
    if Compatible (fs ++ ds) then
      (g.addBatch ds).2 = none ∧ (g.addBatch ds).1.Holds (fs ++ ds)
    else ∃ fault, (g.addBatch ds).2 = some fault := by
  have hiff : (g.addBatch ds).2 = none ↔ _ := addBatch_fault_eq_none_iff hg.tidy
  rw [← hg.compatible_append_iff] at hiff
  by_cases hc : Compatible (fs ++ ds)
  · rw [if_pos hc]
    have hchecked := ((hg.compatible_append_iff ds).mp hc).1
    exact ⟨hiff.mpr hc, hg.append hc (hg.tidy.addBatch ds) (column?_addBatch hg.tidy hchecked)⟩
  · rw [if_neg hc]
    exact Option.ne_none_iff_exists'.mp (mt hiff.mp hc)

theorem Holds.accept (hg : g.Holds fs) (d : Delivery) :
    if Compatible (fs ++ d.fragments) then
      ∃ h, g.accept d = .ok h ∧ h.Holds (fs ++ d.fragments)
    else ∃ fault, g.accept d = .error fault := by
  cases d with
  | single f => exact hg.add f
  | batch ds =>
    have hbatch := hg.addBatch ds
    rw [Delivery.fragments_batch]
    split at hbatch
    · obtain ⟨hnone, hholds⟩ := hbatch
      rw [if_pos ‹_›, Grouping.accept, hnone]
      exact ⟨_, rfl, hholds⟩
    · obtain ⟨fault, hsome⟩ := hbatch
      rw [if_neg ‹_›, Grouping.accept, hsome]
      exact ⟨fault, rfl⟩

theorem Holds.acceptAll (hg : g.Holds fs) (ds : List Delivery) :
    if Compatible (fs ++ ds.flatMap Delivery.fragments) then
      ∃ h, g.acceptAll ds = .ok h ∧ h.Holds (fs ++ ds.flatMap Delivery.fragments)
    else ∃ fault, g.acceptAll ds = .error fault := by
  induction ds generalizing g fs with
  | nil =>
    rw [List.flatMap_nil, List.append_nil, if_pos hg.compatible]
    exact ⟨g, rfl, hg⟩
  | cons d ds ih =>
    have hfirst := hg.accept d
    rw [List.flatMap_cons, ← List.append_assoc]
    rw [Grouping.acceptAll, List.foldlM_cons]
    split at hfirst
    · obtain ⟨h, hok, hholds⟩ := hfirst
      rw [hok]
      exact ih hholds
    · rename_i hc
      obtain ⟨fault, herror⟩ := hfirst
      rw [if_neg (mt Compatible.of_append_left hc), herror]
      exact ⟨fault, rfl⟩

/-- Deliveries are all accepted exactly if their fragments are compatible. -/
theorem acceptAll_ok_iff {o : Options} {ds : List Delivery} :
    (∃ g, (empty o).acceptAll ds = .ok g) ↔ Compatible (ds.flatMap Delivery.fragments) := by
  have h := (holds_empty o).acceptAll ds
  rw [List.nil_append] at h
  split at h
  · obtain ⟨g, hok, -⟩ := h
    exact iff_of_true ⟨g, hok⟩ ‹_›
  · obtain ⟨fault, herror⟩ := h
    refine iff_of_false ?_ ‹_›
    rintro ⟨g, hok⟩
    rw [herror] at hok
    cases hok

theorem acceptAll_holds {o : Options} {ds : List Delivery} {g : Grouping}
    (h : (empty o).acceptAll ds = .ok g) : g.Holds (ds.flatMap Delivery.fragments) := by
  have hall := (holds_empty o).acceptAll ds
  rw [List.nil_append, if_pos (acceptAll_ok_iff.mp ⟨g, h⟩)] at hall
  obtain ⟨g', hok, hholds⟩ := hall
  rw [h] at hok
  cases hok
  exact hholds

end Accept

end SeriesTable.Grouping
