import SeriesTable.Proofs.Grouping.Insertion

/-
  Batches in place. While a batch is put into its blocks they are out of the grouping; afterwards
  each is held again unless nothing is in it. In a tidy grouping no block is without columns, so
  none is lost on the way, and with a pool of threads to be had the batch does what the plain one
  does (`run_insertBatch`). Without a pool, a batch that is to be distributed fails with its blocks
  out of the grouping, and they are lost (`run_insertBatch_of_noPool`).
-/

namespace SeriesTable.Grouping

variable {g : Grouping} {fs : List Fragment}

/-- What a plain batch comes to, as the outcome of a change in place. -/
def landed : Grouping × Option Fault → EStateM.Result Fault Grouping Unit
  | (h, none) => .ok () h
  | (h, some fault) => .error fault h

/-! ## The parts of a batch -/

theorem run_forM_check (g : Grouping) (fs : List Fragment) :
    (forM fs fun f => (ofExcept f.check : EStateM Fault Grouping Unit)).run g =
      landed (g, firstFault? fs) := by
  induction fs with
  | nil => rfl
  | cons f fs ih =>
    rw [List.forM_cons, EStateM.run_bind, run_ofExcept, firstFault?, List.findSome?_cons]
    cases f.check with
    | error fault => rfl
    | ok _ => exact ih

/-- The blocks of different axes are taken out of the grouping as they are held there. -/
theorem run_mapM_detach {es : List (Axis × List Fragment)}
    (hd : es.Pairwise fun a b => a.1 ≠ b.1) (g : Grouping) :
    (es.mapM fun e => detach e.1 e.2).run g =
      .ok (es.map fun e => (g.blockFor e.1, e.2))
        { g with blocks := es.foldl (fun m e => m.erase e.1) g.blocks } := by
  induction es generalizing g with
  | nil => rfl
  | cons e es ih =>
    obtain ⟨hne, hrest⟩ := List.pairwise_cons.mp hd
    have hdetach : (detach e.1 e.2).run g =
        .ok (g.blockFor e.1, e.2) { g with blocks := g.blocks.erase e.1 } := rfl
    have hsame : (es.map fun e' => (blockFor { g with blocks := g.blocks.erase e.1 } e'.1, e'.2)) =
        es.map fun e' => (g.blockFor e'.1, e'.2) := by
      refine List.map_congr_left fun e' he' => ?_
      rw [blockFor, SortedMap.find?_erase, if_neg (hne e' he').symm, ← blockFor]
    rw [List.mapM_cons, EStateM.run_bind, hdetach]
    simp only [EStateM.run_bind, ih hrest, hsame]
    rfl

theorem find?_foldl_erase (es : List (Axis × List Fragment)) (m : SortedMap Axis Block)
    (axis : Axis) :
    (es.foldl (fun m e => m.erase e.1) m).find? axis =
      if axis ∈ es.map (·.1) then none else m.find? axis := by
  induction es generalizing m with
  | nil => rfl
  | cons e es ih =>
    rw [List.foldl_cons, ih, SortedMap.find?_erase, List.map_cons]
    by_cases he : axis = e.1 <;> by_cases hm : axis ∈ es.map (·.1) <;> simp [he, hm]

theorem run_forM_attach (g : Grouping) (is : List Intake) :
    (forM is attach).run g = .ok () (is.foldl settle g) := by
  induction is generalizing g with
  | nil => rfl
  | cons i is ih =>
    rw [List.forM_cons, EStateM.run_bind]
    exact ih (g.settle i)

/-! ## The batch -/

/-- The grouping while the blocks of a batch are out of it. -/
def without (g : Grouping) (fs : List Fragment) : Grouping :=
  { g with blocks := (byAxis fs).entries.foldl (fun m e => m.erase e.1) g.blocks }

theorem find?_without (g : Grouping) (fs : List Fragment) (axis : Axis) :
    (g.without fs).blocks.find? axis =
      if ofAxis axis fs = [] then g.blocks.find? axis else none := by
  have hmem : axis ∈ (byAxis fs).entries.map (·.1) ↔ ofAxis axis fs ≠ [] := by
    simp only [List.mem_map, Prod.exists, mem_byAxis]
    simp
  rw [without, find?_foldl_erase]
  simp only [hmem, ne_eq, ite_not]

/-- Whether the blocks were held meanwhile does not show once they are held again. -/
theorem foldl_settle_without (hg : g.Tidy) (hc : Checked fs) (n : Nat) :
    (g.intakes fs).foldl settle { g.without fs with parallelBatches := n } =
      (g.intakes fs).foldl settle { g with parallelBatches := n } := by
  have hne : ∀ i ∈ g.intakes fs, i.block.columns.isEmpty = false := by
    intro i hi
    obtain ⟨axis, ha, rfl⟩ := mem_intakes.mp hi
    exact inhabited_taken hg hc ha
  have hblocks : ((g.intakes fs).foldl settle { g.without fs with parallelBatches := n }).blocks =
      ((g.intakes fs).foldl settle { g with parallelBatches := n }).blocks := by
    refine SortedMap.ext_find? fun axis => ?_
    rw [find?_foldl_settle hne (distinct_intakes hg hc),
      find?_foldl_settle hne (distinct_intakes hg hc)]
    cases hf : (g.intakes fs).find? fun i => i.block.axis = axis with
    | some i => rfl
    | none =>
      have habsent : ofAxis axis fs = [] := by
        apply Classical.byContradiction
        intro ha
        have hnot := List.find?_eq_none.mp hf _ (mem_intakes.mpr ⟨axis, ha, rfl⟩)
        simp [axis_taken hg hc] at hnot
      show (g.without fs).blocks.find? axis = g.blocks.find? axis
      rw [find?_without, if_pos habsent]
  rw [foldl_settle_eq, hblocks, foldl_settle_eq _ { g with parallelBatches := n }]
  rfl

/-- A batch with a fragment that fails its check changes nothing, whatever there is to distribute it
with. -/
theorem run_insertBatch_of_firstFault? {fault : Fault} (noPool : Option String)
    (h : firstFault? fs = some fault) : (insertBatch noPool fs).run g = .error fault g := by
  have hn : fs.isEmpty = false := by
    cases fs with
    | nil => cases h
    | cons f fs => rfl
  rw [insertBatch, hn]
  simp only [Bool.false_eq_true, if_false, EStateM.run_bind, run_forM_check, h, landed]

theorem run_distribute (g : Grouping) (noPool : Option String) (length : Nat) :
    (distribute noPool length).run g =
      match if distributes g.options length then noPool else none with
      | some reason => .error (.settings (.poolNotBuilt reason)) g
      | none => .ok () { g with
          parallelBatches :=
            g.parallelBatches + (if distributes g.options length then 1 else 0) } := by
  rw [distribute, EStateM.run_bind, EStateM.run_get]
  by_cases hd : distributes g.options length
  · cases noPool <;> simp [hd]
  · simp [hd]

/-- Up to the point where the pool is needed, the blocks of a checked batch are taken out. -/
theorem run_insertBatch_of_checked (hn : fs ≠ []) (hc : Checked fs) (noPool : Option String) :
    (insertBatch noPool fs).run g =
      match if distributes g.options fs.length then noPool else none with
      | some reason => .error (.settings (.poolNotBuilt reason)) (g.without fs)
      | none => landed ((g.intakes fs).foldl settle { g.without fs with
          parallelBatches :=
            g.parallelBatches + (if distributes g.options fs.length then 1 else 0) },
          (g.intakes fs).findSome? (·.refusal)) := by
  have hdistinct : (byAxis fs).entries.Pairwise fun a b => a.1 ≠ b.1 :=
    (byAxis fs).sorted.imp fun hlt heq => by simp [heq] at hlt
  have hwork : ((byAxis fs).entries.map fun e => (g.blockFor e.1, e.2)).map
      (fun w => intake w.1 w.2) = g.intakes fs := List.map_map
  have hdistribute := run_distribute (g.without fs) noPool fs.length
  have hoptions : (g.without fs).options = g.options := rfl
  rw [hoptions] at hdistribute
  rw [insertBatch, List.isEmpty_eq_false_iff.mpr hn]
  simp only [Bool.false_eq_true, if_false, EStateM.run_bind, run_forM_check,
    firstFault?_eq_none_iff.mpr hc, landed, run_mapM_detach hdistinct, hwork]
  rw [← without, hdistribute]
  cases if distributes g.options fs.length then noPool else none with
  | some reason => rfl
  | none =>
    simp only [run_forM_attach]
    cases (g.intakes fs).findSome? (·.refusal) <;> rfl

/-- With a pool to be had, a batch in place does to a tidy grouping what the plain batch does. -/
theorem run_insertBatch (hg : g.Tidy) (fs : List Fragment) :
    (insertBatch none fs).run g = landed (g.addBatch fs) := by
  by_cases hn : fs = []
  · subst hn
    rfl
  cases hf : firstFault? fs with
  | some fault =>
    rw [run_insertBatch_of_firstFault? none hf, addBatch, List.isEmpty_eq_false_iff.mpr hn, hf]
    rfl
  | none =>
    have hc := firstFault?_eq_none_iff.mp hf
    rw [run_insertBatch_of_checked hn hc, ite_self, addBatch_of_checked hn hc,
      foldl_settle_without hg hc]

/-- Without a pool, a batch that is to be distributed fails and takes the blocks of its axes with
it; the other blocks and the counts stay. -/
theorem run_insertBatch_of_noPool (hn : fs ≠ []) (hc : Checked fs) {reason : String}
    (hd : distributes g.options fs.length = true) :
    (insertBatch (some reason) fs).run g =
      .error (.settings (.poolNotBuilt reason)) (g.without fs) := by
  rw [run_insertBatch_of_checked hn hc, if_pos hd]

/-- A batch that is taken in is taken in just as well with a pool to be had. -/
theorem run_insertBatch_of_ok {noPool : Option String} {h : Grouping}
    (hok : (insertBatch noPool fs).run g = .ok () h) : (insertBatch none fs).run g = .ok () h := by
  by_cases hn : fs = []
  · subst hn
    exact hok
  cases hf : firstFault? fs with
  | some fault =>
    rw [run_insertBatch_of_firstFault? noPool hf] at hok
    cases hok
  | none =>
    have hc := firstFault?_eq_none_iff.mp hf
    rw [run_insertBatch_of_checked hn hc] at hok ⊢
    rw [ite_self]
    cases hreason : if distributes g.options fs.length then noPool else none with
    | none =>
      rw [hreason] at hok
      exact hok
    | some reason =>
      rw [hreason] at hok
      cases hok

end SeriesTable.Grouping
