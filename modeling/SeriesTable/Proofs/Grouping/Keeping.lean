import SeriesTable.Proofs.Grouping.Contents
import SeriesTable.Proofs.Grouping.OneByOne

/-
  What a grouping holds and counts of the fragments that went into it in batches. As long as the
  fragments are compatible, it is the grouping that they give one by one, each added once and in
  whatever order (`Keeps.foldlM_add`); only the batches that were distributed are counted apart. The
  first batch with a fault names a fragment that fails its check or repeats another (`Refusal`).
-/

namespace SeriesTable.Grouping

variable {o : Options} {g h : Grouping} {fs ds : List Fragment} {fault : Fault}

/-! ## Refusals -/

/-- The number of fragments with this axis and source. -/
def countAt (axis : Axis) (source : String) (fs : List Fragment) : Nat :=
  fs.countP fun d => d.axis = axis ∧ d.source = source

theorem countAt_append (axis : Axis) (source : String) (fs ds : List Fragment) :
    countAt axis source (fs ++ ds) = countAt axis source fs + countAt axis source ds :=
  List.countP_append

theorem countAt_self (f : Fragment) (fs : List Fragment) :
    countAt f.axis f.source (f :: fs) = countAt f.axis f.source fs + 1 :=
  List.countP_cons_of_pos (by simp)

theorem countAt_pos_iff {axis : Axis} {source : String} :
    0 < countAt axis source fs ↔ ∃ f ∈ fs, f.axis = axis ∧ f.source = source := by
  simp [countAt, List.countP_pos_iff]

/-- The fault is that one of the fragments fails its check, or that one repeats the axis and source
of another. -/
def Refusal (fs : List Fragment) (fault : Fault) : Prop :=
  (∃ f ∈ fs, f.check = .error fault) ∨
    ∃ f ∈ fs, fault = .duplicateSource f.source f.axis.start ∧ 2 ≤ countAt f.axis f.source fs

theorem Refusal.perm (hp : fs.Perm ds) (hr : Refusal fs fault) : Refusal ds fault := by
  refine hr.imp ?_ ?_
  · rintro ⟨f, hf, hcheck⟩
    exact ⟨f, hp.mem_iff.mp hf, hcheck⟩
  · rintro ⟨f, hf, heq, hcount⟩
    exact ⟨f, hp.mem_iff.mp hf, heq, hcount.trans_eq (hp.countP_eq _)⟩

theorem Refusal.append (hr : Refusal fs fault) (ds : List Fragment) :
    Refusal (fs ++ ds) fault := by
  refine hr.imp ?_ ?_
  · rintro ⟨f, hf, hcheck⟩
    exact ⟨f, List.mem_append_left _ hf, hcheck⟩
  · rintro ⟨f, hf, heq, hcount⟩
    refine ⟨f, List.mem_append_left _ hf, heq, ?_⟩
    rw [countAt_append]
    exact Nat.le_add_right_of_le hcount

/-- Distinct fragments have every axis and source once. -/
theorem Distinct.countAt_le (hd : Distinct fs) (axis : Axis) (source : String) :
    countAt axis source fs ≤ 1 := by
  induction fs with
  | nil => exact Nat.zero_le 1
  | cons f fs ih =>
    obtain ⟨hf, hfs⟩ := List.pairwise_cons.mp hd
    by_cases hkey : f.axis = axis ∧ f.source = source
    · obtain ⟨rfl, rfl⟩ := hkey
      have hnone : ¬ 0 < countAt f.axis f.source fs := by
        rw [countAt_pos_iff]
        rintro ⟨d, hd, ha, hs⟩
        exact hf d hd ⟨ha.symm, hs.symm⟩
      rw [countAt_self]
      omega
    · rw [countAt, List.countP_cons_of_neg (by simpa using hkey)]
      exact ih hfs

theorem Refusal.not_compatible (hr : Refusal fs fault) : ¬ Compatible fs := by
  rintro ⟨hchecked, hdistinct⟩
  rcases hr with ⟨f, hf, hcheck⟩ | ⟨f, -, -, hcount⟩
  · rw [hchecked f hf] at hcheck
    cases hcheck
  · have := hdistinct.countAt_le f.axis f.source
    omega

/-- Of checked fragments added to a grouping of others, those are refused whose axis and source
occur twice among all. -/
theorem Tidy.countAt_refused (hg : g.Tidy) (hc : Checked ds)
    (hfs : ∀ axis source, (g.column? axis source).isSome = true → 0 < countAt axis source fs) :
    ∀ e ∈ (g.addEach ds).refused, 2 ≤ countAt e.1.axis e.1.source (fs ++ ds) := by
  refine hg.addEach_induction (P := fun g ds p => ∀ fs,
    (∀ axis source, (g.column? axis source).isSome = true → 0 < countAt axis source fs) →
    ∀ e ∈ p.refused, 2 ≤ countAt e.1.axis e.1.source (fs ++ ds)) ?_ ?_ ?_ hc fs hfs
  · intro g _ fs _ e he
    cases he
  · intro g f ds _ hcolumn ih fs hfs e he
    rcases List.mem_cons.mp he with rfl | he
    · have hbefore := hfs f.axis f.source hcolumn
      show 2 ≤ countAt f.axis f.source (fs ++ f :: ds)
      rw [countAt_append, countAt_self]
      omega
    · have hrest := ih fs hfs e he
      have hcons : countAt e.1.axis e.1.source ds ≤ countAt e.1.axis e.1.source (f :: ds) :=
        List.Sublist.countP_le (List.sublist_cons_self ..)
      rw [countAt_append] at hrest ⊢
      omega
  · intro g f ds _ _ ih fs hfs e he
    have hnew : ∀ axis source, ((g.withFragment f).column? axis source).isSome = true →
        0 < countAt axis source (fs ++ [f]) := by
      intro axis source hsome
      rw [column?_placed (g := g) (f := f) rfl] at hsome
      rw [countAt_append]
      split at hsome
      · rename_i hkey
        rw [hkey.1, hkey.2, countAt_self]
        omega
      · exact Nat.add_pos_left (hfs axis source hsome) _
    simpa using ih (fs ++ [f]) hnew e he

/-! ## One by one -/

theorem Holds.foldlM_add (hg : g.Holds fs) (hc : Compatible (fs ++ ds)) :
    ∃ h, ds.foldlM Grouping.add g = .ok h ∧ h.Holds (fs ++ ds) := by
  induction ds generalizing g fs with
  | nil => exact ⟨g, rfl, by rwa [List.append_nil]⟩
  | cons f ds ih =>
    rw [List.append_cons] at hc ⊢
    have hadd := hg.add f
    rw [if_pos hc.of_append_left] at hadd
    obtain ⟨g', hok, hholds⟩ := hadd
    rw [List.foldlM_cons, hok]
    exact ih hholds hc

theorem addEach_of_foldlM (hok : ds.foldlM add g = .ok h) : g.addEach ds = ⟨h, ds, []⟩ := by
  induction ds generalizing g with
  | nil =>
    cases hok
    rfl
  | cons f ds ih =>
    rw [List.foldlM_cons] at hok
    cases ha : g.add f with
    | error fault =>
      rw [ha] at hok
      cases hok
    | ok g' =>
      rw [ha] at hok
      rw [addEach_of_ok ha, ih hok]

/-- The grouping holds the fragments and has counted each of them once. -/
structure Keeps (o : Options) (g : Grouping) (fs : List Fragment) : Prop where
  holds : g.Holds fs
  options : g.options = o
  fragments : g.fragments = fs.length
  bytes : g.bytes = (fs.map Fragment.size).sum

theorem keeps_empty (o : Options) : Keeps o (empty o) [] := ⟨holds_empty o, rfl, rfl, rfl⟩

theorem Keeps.perm (hg : Keeps o g fs) (hp : fs.Perm ds) : Keeps o g ds where
  holds := hg.holds.perm hp
  options := hg.options
  fragments := hg.fragments.trans hp.length_eq
  bytes := hg.bytes.trans (hp.map Fragment.size).sum_nat

/-- Compatible fragments added one by one are taken in and counted. -/
theorem Keeps.addEach (hg : Keeps o g fs) (hc : Compatible (fs ++ ds)) :
    ∃ h, ds.foldlM add g = .ok h ∧ g.addEach ds = ⟨h, ds, []⟩ ∧ Keeps o h (fs ++ ds) ∧
      h.parallelBatches = g.parallelBatches := by
  obtain ⟨h, hok, hholds⟩ := hg.holds.foldlM_add hc
  have heach := addEach_of_foldlM hok
  have hchecked := ((hg.holds.compatible_append_iff ds).mp hc).1
  have hcounted := hg.holds.tidy.grouping_addEach hchecked
  rw [heach] at hcounted
  refine ⟨h, hok, heach, ⟨hholds, ?_, ?_, ?_⟩, (congrArg Grouping.parallelBatches hcounted :)⟩
  · exact (congrArg Grouping.options hcounted).trans hg.options
  · rw [List.length_append, ← hg.fragments]
    exact congrArg Grouping.fragments hcounted
  · rw [List.map_append, List.sum_append, ← hg.bytes]
    exact congrArg Grouping.bytes hcounted

/-- The grouping is the one that the fragments give when each is added once, in whatever order. -/
theorem Keeps.foldlM_add (hg : Keeps o g fs) (hp : ds.Perm fs) :
    ds.foldlM add (empty o) = .ok { g with parallelBatches := 0 } := by
  have hc : Compatible ([] ++ ds) := hg.holds.compatible.perm hp.symm
  obtain ⟨h, hok, -, hkeeps, hparallel⟩ := (keeps_empty o).addEach hc
  rw [hok]
  have hsame : Keeps o h fs := hkeeps.perm hp
  have hblocks : h.blocks = g.blocks := hsame.holds.blocks_eq (.refl _) hg.holds
  have hoptions := hsame.options.trans hg.options.symm
  have hfragments := hsame.fragments.trans hg.fragments.symm
  have hbytes := hsame.bytes.trans hg.bytes.symm
  obtain ⟨_, _, _, _, _⟩ := h
  subst hblocks hoptions hfragments hbytes hparallel
  rfl

/-! ## Batches -/

/-- A batch of fragments that are compatible with those held is kept with them; another has a fault
that names one of the fragments. -/
theorem Keeps.addBatch (hg : Keeps o g fs) (ds : List Fragment) :
    if Compatible (fs ++ ds) then
      (g.addBatch ds).2 = none ∧ Keeps o (g.addBatch ds).1 (fs ++ ds)
    else ∃ fault, (g.addBatch ds).2 = some fault ∧ Refusal (fs ++ ds) fault := by
  have hbatch := hg.holds.addBatch ds
  by_cases hc : Compatible (fs ++ ds)
  · rw [if_pos hc] at hbatch ⊢
    obtain ⟨hnone, hholds⟩ := hbatch
    obtain ⟨h, -, heach, hkeeps, -⟩ := hg.addEach hc
    have hchecked := ((hg.holds.compatible_append_iff ds).mp hc).1
    have hbatch := addBatch_of_checked_eq hg.holds.tidy hchecked
    rw [heach] at hbatch
    refine ⟨hnone, hholds, ?_, ?_, ?_⟩
    · rw [hbatch]
      exact hkeeps.options
    · rw [hbatch]
      exact hkeeps.fragments
    · rw [hbatch]
      exact hkeeps.bytes
  · rw [if_neg hc] at hbatch ⊢
    obtain ⟨fault, hsome⟩ := hbatch
    refine ⟨fault, hsome, ?_⟩
    by_cases hchecked : Checked ds
    · have htidy := hg.holds.tidy
      rcases addBatch_fault_cases htidy hchecked with ⟨-, hnone⟩ | ⟨f, hfirst, hfault⟩
      · rw [hnone] at hsome
        cases hsome
      · obtain rfl := Option.some.inj (hsome.symm.trans hfault)
        have hmem : (f, Fault.duplicateSource f.source f.axis.start) ∈ (g.addEach ds).refused := by
          obtain ⟨before, after, heq, -⟩ := hfirst
          rw [heq]
          exact List.mem_append_right _ (List.mem_cons_self ..)
        have hcolumns : ∀ axis source, (g.column? axis source).isSome = true →
            0 < countAt axis source fs := by
          intro axis source hcolumn
          obtain ⟨c, hcolumn⟩ := Option.isSome_iff_exists.mp hcolumn
          obtain ⟨d, hd, ha, hs, -⟩ := (hg.holds.column?_iff ..).mp hcolumn
          exact countAt_pos_iff.mpr ⟨d, hd, ha, hs⟩
        exact .inr ⟨f, List.mem_append_right _ (htidy.of_mem_refused hchecked _ hmem).1, rfl,
          htidy.countAt_refused hchecked hcolumns _ hmem⟩
    · obtain ⟨before, f, after, first, heq, -, hcheck, hfault⟩ := addBatch_of_not_checked hchecked
      rw [hfault] at hsome
      obtain rfl := Option.some.inj hsome
      refine .inl ⟨f, List.mem_append_right _ ?_, hcheck⟩
      rw [heq]
      exact List.mem_append_right _ (List.mem_cons_self ..)

end SeriesTable.Grouping
