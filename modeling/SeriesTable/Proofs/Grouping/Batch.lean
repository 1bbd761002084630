import SeriesTable.Proofs.Grouping.Lookup

/-
  Batches. A checked batch acts on every axis by itself: the block of an axis takes in the batch's
  fragments of that axis, in the order of their arrival (`blockFor_addBatch`). So the batch leaves
  for every axis and source what was held, or else the first fragment that brings one
  (`column?_addBatch`), and it has no fault exactly if every fragment is checked, none repeats what
  is held, and no two share axis and source (`addBatch_fault_eq_none_iff`).
-/

namespace SeriesTable.Grouping

/-! ## One axis -/

namespace Intake

/-- The intake as it goes on when the block does not take a fragment. -/
def refuse (i : Intake) (f : Fragment) : Intake :=
  { i with refusal := i.refusal.or (some (.duplicateSource f.source i.block.start)) }

/-- The intake with a fragment's values in the block. -/
def accept (i : Intake) (f : Fragment) : Intake :=
  { i with
    block := { i.block with columns := i.block.columns.insert f.source f.column }
    fragments := i.fragments + 1
    bytes := i.bytes + f.size }

theorem add_of_check {i : Intake} {f : Fragment} (hc : f.check = .ok ())
    (ha : f.axis = i.block.axis) :
    i.add f = if (i.block.column? f.source).isSome then i.refuse f else i.accept f := by
  rw [add, Block.addFragment_of_check hc ha, Block.hasSource_eq]
  by_cases hs : (i.block.column? f.source).isSome
  · rw [if_pos hs, if_pos hs]
    rfl
  · rw [if_neg hs, if_neg hs]
    rfl

theorem axis_add (i : Intake) (f : Fragment) (hc : f.check = .ok ())
    (ha : f.axis = i.block.axis) : (i.add f).block.axis = i.block.axis := by
  rw [add_of_check hc ha]
  split <;> rfl

variable {axis : Axis} {fs : List Fragment}

theorem axis_foldl {i : Intake} (hi : i.block.axis = axis)
    (h : ∀ f ∈ fs, f.check = .ok () ∧ f.axis = axis) :
    (fs.foldl add i).block.axis = axis := by
  induction fs generalizing i with
  | nil => exact hi
  | cons f fs ih =>
    obtain ⟨hc, ha⟩ := h f (List.mem_cons_self ..)
    have hnext := (i.axis_add f hc (ha.trans hi.symm)).trans hi
    exact ih hnext fun f hf => h f (List.mem_cons_of_mem _ hf)

/-- What the block held stays, and of the fragments of a source the first comes in. -/
theorem column?_foldl {i : Intake} (hi : i.block.axis = axis)
    (h : ∀ f ∈ fs, f.check = .ok () ∧ f.axis = axis) (source : String) :
    (fs.foldl add i).block.column? source =
      (i.block.column? source).or
        ((fs.find? fun f => f.source = source).map Fragment.column) := by
  induction fs generalizing i with
  | nil => simp
  | cons f fs ih =>
    obtain ⟨hc, ha⟩ := h f (List.mem_cons_self ..)
    have hnext := (i.axis_add f hc (ha.trans hi.symm)).trans hi
    rw [List.foldl_cons, ih hnext fun f hf => h f (List.mem_cons_of_mem _ hf),
      add_of_check hc (ha.trans hi.symm), List.find?_cons]
    by_cases hs : (i.block.column? f.source).isSome
    · rw [if_pos hs, refuse]
      by_cases he : f.source = source
      · obtain ⟨c, hsome⟩ := Option.isSome_iff_exists.mp hs
        rw [he] at hsome
        simp [hsome]
      · simp [he]
    · rw [if_neg hs, accept, Block.column?_insert]
      rw [Option.not_isSome_iff_eq_none] at hs
      by_cases he : f.source = source
      · rw [he] at hs
        simp [he, hs]
      · simp [he, Ne.symm he]

theorem refusal_foldl_eq_none_iff {i : Intake} (hi : i.block.axis = axis)
    (h : ∀ f ∈ fs, f.check = .ok () ∧ f.axis = axis) :
    (fs.foldl add i).refusal = none ↔
      i.refusal = none ∧ (∀ f ∈ fs, i.block.column? f.source = none) ∧
        (fs.map Fragment.source).Nodup := by
  induction fs generalizing i with
  | nil => simp
  | cons f fs ih =>
    obtain ⟨hc, ha⟩ := h f (List.mem_cons_self ..)
    have hnext := (i.axis_add f hc (ha.trans hi.symm)).trans hi
    rw [List.foldl_cons, ih hnext fun f hf => h f (List.mem_cons_of_mem _ hf),
      add_of_check hc (ha.trans hi.symm), List.forall_mem_cons, List.map_cons, List.nodup_cons]
    by_cases hs : (i.block.column? f.source).isSome
    · have hne : i.block.column? f.source ≠ none := Option.isSome_iff_ne_none.mp hs
      rw [if_pos hs, refuse]
      simp [hne]
    · rw [if_neg hs, accept]
      rw [Option.not_isSome_iff_eq_none] at hs
      simp only [Block.column?_insert, hs, true_and]
      refine and_congr_right fun _ => ⟨?_, ?_⟩
      · rintro ⟨hnew, hnodup⟩
        have hother : ∀ g ∈ fs, g.source ≠ f.source ∧ i.block.column? g.source = none := by
          intro g hg
          have := hnew g hg
          split at this
          · cases this
          · exact ⟨‹_›, this⟩
        refine ⟨fun g hg => (hother g hg).2, ?_, hnodup⟩
        intro hmem
        obtain ⟨g, hg, heq⟩ := List.mem_map.mp hmem
        exact (hother g hg).1 heq
      · rintro ⟨hnew, hnot, hnodup⟩
        refine ⟨fun g hg => ?_, hnodup⟩
        have hne : g.source ≠ f.source := fun heq => hnot (List.mem_map.mpr ⟨g, hg, heq⟩)
        rw [if_neg hne]
        exact hnew g hg

end Intake

/-! ## The fragments by axis -/

/-- The fragments of an axis, in order. -/
def ofAxis (axis : Axis) (fs : List Fragment) : List Fragment := fs.filter fun f => f.axis = axis

theorem mem_ofAxis {axis : Axis} {fs : List Fragment} {f : Fragment} :
    f ∈ ofAxis axis fs ↔ f ∈ fs ∧ f.axis = axis := by
  simp [ofAxis]

theorem find?_foldl_byAxis (fs : List Fragment) (m : SortedMap Axis (List Fragment))
    (axis : Axis) :
    (fs.foldl (fun m f => m.insert f.axis ((m.find? f.axis).getD [] ++ [f])) m).find? axis =
      if ofAxis axis fs = [] then m.find? axis
      else some ((m.find? axis).getD [] ++ ofAxis axis fs) := by
  induction fs generalizing m with
  | nil => rfl
  | cons f fs ih =>
    rw [List.foldl_cons, ih, SortedMap.find?_insert]
    by_cases ha : f.axis = axis
    · subst ha
      by_cases hrest : ofAxis f.axis fs = [] <;> simp_all [ofAxis]
    · simp [ofAxis, ha, Ne.symm ha]

theorem find?_byAxis (fs : List Fragment) (axis : Axis) :
    (byAxis fs).find? axis = if ofAxis axis fs = [] then none else some (ofAxis axis fs) := by
  rw [byAxis, find?_foldl_byAxis]
  simp

theorem mem_byAxis {fs group : List Fragment} {axis : Axis} :
    (axis, group) ∈ (byAxis fs).entries ↔ ofAxis axis fs ≠ [] ∧ group = ofAxis axis fs := by
  rw [← SortedMap.find?_eq_some_iff, find?_byAxis]
  by_cases h : ofAxis axis fs = [] <;> simp [h, eq_comm]

/-! ## The whole batch -/

/-- Every fragment may be put into a block. -/
def Checked (fs : List Fragment) : Prop := ∀ f ∈ fs, f.check = .ok ()

theorem firstFault?_eq_none_iff {fs : List Fragment} : firstFault? fs = none ↔ Checked fs := by
  unfold firstFault? Checked
  rw [List.findSome?_eq_none_iff]
  refine forall_congr' fun f => forall_congr' fun _ => ?_
  cases f.check <;> simp

instance (fs : List Fragment) : Decidable (Checked fs) :=
  decidable_of_iff _ firstFault?_eq_none_iff

/-- What the batch's fragments of an axis make of its block. -/
def taken (g : Grouping) (fs : List Fragment) (axis : Axis) : Intake :=
  intake (g.blockFor axis) (ofAxis axis fs)

section Taken

variable {g : Grouping} {fs : List Fragment}

theorem checked_ofAxis (hc : Checked fs) (axis : Axis) :
    ∀ f ∈ ofAxis axis fs, f.check = .ok () ∧ f.axis = axis := by
  intro f hf
  rw [mem_ofAxis] at hf
  exact ⟨hc f hf.1, hf.2⟩

theorem axis_taken (hg : g.Tidy) (hc : Checked fs) (axis : Axis) :
    (g.taken fs axis).block.axis = axis :=
  Intake.axis_foldl (hg.axis_blockFor axis) (checked_ofAxis hc axis)

theorem column?_taken (hg : g.Tidy) (hc : Checked fs) (axis : Axis) (source : String) :
    (g.taken fs axis).block.column? source =
      (g.column? axis source).or
        ((fs.find? fun f => f.axis = axis ∧ f.source = source).map Fragment.column) := by
  have := Intake.column?_foldl (i := ⟨g.blockFor axis, 0, 0, none⟩) (hg.axis_blockFor axis)
    (checked_ofAxis hc axis) source
  rw [taken, intake, this, column?, ofAxis, List.find?_filter]
  simp

theorem refusal_taken_eq_none_iff (hg : g.Tidy) (hc : Checked fs) (axis : Axis) :
    (g.taken fs axis).refusal = none ↔
      (∀ f ∈ ofAxis axis fs, g.column? axis f.source = none) ∧
        ((ofAxis axis fs).map Fragment.source).Nodup := by
  have := Intake.refusal_foldl_eq_none_iff (i := ⟨g.blockFor axis, 0, 0, none⟩)
    (hg.axis_blockFor axis) (checked_ofAxis hc axis)
  rw [taken, intake, this]
  simp [column?]

/-- An axis of the batch has columns afterwards. -/
theorem inhabited_taken (hg : g.Tidy) (hc : Checked fs) {axis : Axis}
    (h : ofAxis axis fs ≠ []) : (g.taken fs axis).block.columns.isEmpty = false := by
  obtain ⟨f, hf⟩ := List.exists_mem_of_ne_nil _ h
  rw [mem_ofAxis] at hf
  have hsome : (fs.find? fun d => d.axis = axis ∧ d.source = f.source).isSome :=
    List.find?_isSome.mpr ⟨f, hf.1, by simp [hf.2]⟩
  rw [Block.isEmpty_eq_false_iff]
  refine ⟨f.source, Option.isSome_iff_exists.mp ?_⟩
  rw [column?_taken hg hc, Option.isSome_or, Option.isSome_map, hsome, Bool.or_true]

end Taken

/-- Blocks with columns are settled under their axes; the last of one axis counts. -/
theorem find?_foldl_settle {is : List Intake} {g : Grouping}
    (hne : ∀ i ∈ is, i.block.columns.isEmpty = false)
    (hd : is.Pairwise fun i j => i.block.axis ≠ j.block.axis) (axis : Axis) :
    (is.foldl settle g).blocks.find? axis =
      match is.find? fun i => i.block.axis = axis with
      | some i => some i.block
      | none => g.blocks.find? axis := by
  induction is generalizing g with
  | nil => rfl
  | cons i is ih =>
    obtain ⟨hi, hrest⟩ := List.pairwise_cons.mp hd
    have hsettle : (g.settle i).blocks = g.blocks.insert i.block.axis i.block := by
      rw [settle, hne i (List.mem_cons_self ..)]
      rfl
    rw [List.foldl_cons, ih (fun j hj => hne j (List.mem_cons_of_mem _ hj)) hrest, hsettle,
      SortedMap.find?_insert, List.find?_cons]
    by_cases ha : i.block.axis = axis
    · have hnone : is.find? (fun j => j.block.axis = axis) = none := by
        rw [List.find?_eq_none]
        intro j hj
        simpa [← ha] using Ne.symm (hi j hj)
      simp [ha, hnone]
    · simp [ha, Ne.symm ha]

section AddBatch

variable {g : Grouping} {fs : List Fragment}

/-- What the axes of a batch took in. -/
def intakes (g : Grouping) (fs : List Fragment) : List Intake :=
  (byAxis fs).entries.map fun e => intake (g.blockFor e.1) e.2

theorem mem_intakes {i : Intake} :
    i ∈ g.intakes fs ↔ ∃ axis, ofAxis axis fs ≠ [] ∧ i = g.taken fs axis := by
  rw [intakes, List.mem_map]
  constructor
  · rintro ⟨⟨axis, group⟩, he, rfl⟩
    obtain ⟨hne, rfl⟩ := mem_byAxis.mp he
    exact ⟨axis, hne, rfl⟩
  · rintro ⟨axis, hne, rfl⟩
    exact ⟨(axis, ofAxis axis fs), mem_byAxis.mpr ⟨hne, rfl⟩, rfl⟩

theorem distinct_intakes (hg : g.Tidy) (hc : Checked fs) :
    (g.intakes fs).Pairwise fun i j => i.block.axis ≠ j.block.axis := by
  rw [intakes, List.pairwise_map]
  refine (byAxis fs).sorted.imp_of_mem ?_
  rintro ⟨axis, group⟩ ⟨axis', group'⟩ he he' hlt
  obtain ⟨-, rfl⟩ := mem_byAxis.mp he
  obtain ⟨-, rfl⟩ := mem_byAxis.mp he'
  show (g.taken fs axis).block.axis ≠ (g.taken fs axis').block.axis
  rw [axis_taken hg hc, axis_taken hg hc]
  rintro rfl
  simp at hlt

theorem addBatch_of_checked (hn : fs ≠ []) (hc : Checked fs) :
    g.addBatch fs =
      ((g.intakes fs).foldl settle { g with
        parallelBatches :=
          g.parallelBatches + (if distributes g.options fs.length then 1 else 0) },
        (g.intakes fs).findSome? (·.refusal)) := by
  have hempty : fs.isEmpty = false := List.isEmpty_eq_false_iff.mpr hn
  rw [addBatch, hempty, firstFault?_eq_none_iff.mpr hc]
  rfl

theorem find?_addBatch (hg : g.Tidy) (hc : Checked fs) (axis : Axis) :
    (g.addBatch fs).1.blocks.find? axis =
      if ofAxis axis fs = [] then g.blocks.find? axis else some (g.taken fs axis).block := by
  by_cases hn : fs = []
  · subst hn
    rfl
  have hne : ∀ i ∈ g.intakes fs, i.block.columns.isEmpty = false := by
    intro i hi
    obtain ⟨a, ha, rfl⟩ := mem_intakes.mp hi
    exact inhabited_taken hg hc ha
  rw [addBatch_of_checked hn hc]
  show ((g.intakes fs).foldl settle _).blocks.find? axis = _
  rw [find?_foldl_settle hne (distinct_intakes hg hc)]
  by_cases ha : ofAxis axis fs = []
  · have hnone : (g.intakes fs).find? (fun i => i.block.axis = axis) = none := by
      rw [List.find?_eq_none]
      intro i hi
      obtain ⟨a, hne, rfl⟩ := mem_intakes.mp hi
      rw [axis_taken hg hc]
      rintro heq
      simp only [decide_eq_true_eq] at heq
      exact hne (heq ▸ ha)
    rw [hnone, if_pos ha]
  · rw [if_neg ha]
    cases hf : (g.intakes fs).find? fun i => i.block.axis = axis with
    | none =>
      have := List.find?_eq_none.mp hf _ (mem_intakes.mpr ⟨axis, ha, rfl⟩)
      rw [axis_taken hg hc] at this
      simp at this
    | some i =>
      obtain ⟨a, -, rfl⟩ := mem_intakes.mp (List.mem_of_find?_eq_some hf)
      have heq := List.find?_some hf
      rw [axis_taken hg hc, decide_eq_true_eq] at heq
      rw [heq]

/-- A checked batch acts on every axis by itself. -/
theorem blockFor_addBatch (hg : g.Tidy) (hc : Checked fs) (axis : Axis) :
    (g.addBatch fs).1.blockFor axis = (g.taken fs axis).block := by
  rw [blockFor, find?_addBatch hg hc]
  by_cases ha : ofAxis axis fs = []
  · rw [if_pos ha, taken, ha]
    rfl
  · rw [if_neg ha]
    rfl

/-- What was held stays, and of the fragments of an axis and a source the first comes in. -/
theorem column?_addBatch (hg : g.Tidy) (hc : Checked fs) (axis : Axis) (source : String) :
    (g.addBatch fs).1.column? axis source =
      (g.column? axis source).or
        ((fs.find? fun f => f.axis = axis ∧ f.source = source).map Fragment.column) := by
  rw [column?, blockFor_addBatch hg hc, column?_taken hg hc]

/-- A batch that is not checked is refused whole, for the first fragment that fails. -/
theorem addBatch_of_not_checked (h : ¬ Checked fs) :
    ∃ before f after fault, fs = before ++ f :: after ∧ Checked before ∧
      f.check = .error fault ∧ g.addBatch fs = (g, some fault) := by
  cases hf : firstFault? fs with
  | none => exact absurd (firstFault?_eq_none_iff.mp hf) h
  | some fault =>
    obtain ⟨before, f, after, heq, hfault, hnone⟩ := List.findSome?_eq_some_iff.mp hf
    have hbefore : Checked before := by
      rw [← firstFault?_eq_none_iff, firstFault?, List.findSome?_eq_none_iff]
      exact hnone
    have hcheck : f.check = .error fault := by
      split at hfault
      · cases hfault
      · rename_i fault' herror
        rw [herror, Option.some.inj hfault]
    have hn : fs.isEmpty = false := by simp [heq]
    refine ⟨before, f, after, fault, heq, hbefore, hcheck, ?_⟩
    rw [addBatch, hn, hf]
    rfl

theorem Tidy.addBatch (hg : g.Tidy) (fs : List Fragment) : (g.addBatch fs).1.Tidy := by
  by_cases hc : Checked fs
  case neg =>
    obtain ⟨-, -, -, fault, -, -, -, heq⟩ := addBatch_of_not_checked (g := g) hc
    rwa [heq]
  constructor
  · intro axis b hb
    rw [find?_addBatch hg hc] at hb
    split at hb
    · exact hg.axis_eq axis b hb
    · cases hb
      exact axis_taken hg hc axis
  · intro axis b hb
    rw [find?_addBatch hg hc] at hb
    split at hb
    · exact hg.inhabited axis b hb
    · cases hb
      exact inhabited_taken hg hc ‹_›

/-- No two of the fragments share axis and source. -/
def Distinct (fs : List Fragment) : Prop :=
  fs.Pairwise fun f d => ¬ (f.axis = d.axis ∧ f.source = d.source)

instance (fs : List Fragment) : Decidable (Distinct fs) :=
  inferInstanceAs (Decidable (List.Pairwise _ _))

theorem distinct_iff_forall_axis :
    Distinct fs ↔ ∀ axis, ((ofAxis axis fs).map Fragment.source).Nodup := by
  unfold Distinct
  induction fs with
  | nil => simp [ofAxis]
  | cons f fs ih =>
    rw [List.pairwise_cons, ih]
    constructor
    · rintro ⟨hf, hfs⟩ axis
      by_cases ha : f.axis = axis
      · subst ha
        rw [ofAxis, List.filter_cons_of_pos (by simp), List.map_cons, List.nodup_cons]
        refine ⟨?_, hfs f.axis⟩
        intro hmem
        obtain ⟨d, hd, heq⟩ := List.mem_map.mp hmem
        obtain ⟨hd, hax⟩ := mem_ofAxis.mp hd
        exact hf d hd ⟨hax.symm, heq.symm⟩
      · rw [ofAxis, List.filter_cons_of_neg (by simpa using ha)]
        exact hfs axis
    · intro h
      refine ⟨?_, fun axis => ?_⟩
      · rintro d hd ⟨ha, hs⟩
        have hself := h f.axis
        rw [ofAxis, List.filter_cons_of_pos (by simp), List.map_cons, List.nodup_cons] at hself
        exact hself.1 (List.mem_map.mpr ⟨d, mem_ofAxis.mpr ⟨hd, ha.symm⟩, hs.symm⟩)
      · have haxis := h axis
        rw [ofAxis, List.filter_cons] at haxis
        split at haxis
        · exact (List.nodup_cons.mp haxis).2
        · exact haxis

/-- A batch has no fault exactly if all of it is taken in. -/
theorem addBatch_fault_eq_none_iff (hg : g.Tidy) :
    (g.addBatch fs).2 = none ↔
      Checked fs ∧ (∀ f ∈ fs, g.column? f.axis f.source = none) ∧ Distinct fs := by
  by_cases hc : Checked fs
  case neg =>
    obtain ⟨-, -, -, fault, -, -, -, heq⟩ := addBatch_of_not_checked (g := g) hc
    simp [heq, hc]
  by_cases hn : fs = []
  · subst hn
    simp [addBatch, Checked, Distinct]
  have hrefusals : (g.addBatch fs).2 = none ↔ ∀ axis, (g.taken fs axis).refusal = none := by
    rw [addBatch_of_checked hn hc]
    show (g.intakes fs).findSome? (·.refusal) = none ↔ _
    rw [List.findSome?_eq_none_iff]
    constructor
    · intro h axis
      by_cases ha : ofAxis axis fs = []
      · rw [taken, ha]
        rfl
      · exact h _ (mem_intakes.mpr ⟨axis, ha, rfl⟩)
    · intro h i hi
      obtain ⟨axis, -, rfl⟩ := mem_intakes.mp hi
      exact h axis
  rw [hrefusals, distinct_iff_forall_axis]
  simp only [refusal_taken_eq_none_iff hg hc, hc, true_and]
  constructor
  · intro h
    exact ⟨fun f hf => (h f.axis).1 f (mem_ofAxis.mpr ⟨hf, rfl⟩), fun axis => (h axis).2⟩
  · rintro ⟨hnew, hdistinct⟩ axis
    refine ⟨fun f hf => ?_, hdistinct axis⟩
    obtain ⟨hmem, ha⟩ := mem_ofAxis.mp hf
    rw [← ha]
    exact hnew f hmem

end AddBatch

end SeriesTable.Grouping
