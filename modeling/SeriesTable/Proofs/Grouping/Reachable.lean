import SeriesTable.Proofs.Grouping.OneByOne

/-
  The groupings that come about in use. All of them are tidy, so a batch does to each what its
  fragments would do one by one (`batch_one_by_one`).
-/

namespace SeriesTable.Grouping

/-- An empty grouping, and whatever a fragment that is taken in, a batch, the handing over of the
blocks or a reset makes of one. -/
inductive Reachable : Grouping → Prop where
  | empty (o : Options) : Reachable (empty o)
  | add {g h : Grouping} {f : Fragment} (hg : Reachable g) (ha : g.add f = .ok h) : Reachable h
  | addBatch {g : Grouping} (hg : Reachable g) (fs : List Fragment) : Reachable (g.addBatch fs).1
  | take {g : Grouping} (hg : Reachable g) : Reachable g.take.2
  | reset {g : Grouping} (hg : Reachable g) : Reachable g.reset

theorem Tidy.of_add {g h : Grouping} {f : Fragment} (hg : g.Tidy) (ha : g.add f = .ok h) :
    h.Tidy := by
  cases hc : f.check with
  | error fault =>
    rw [add_eq_error_of_check hc] at ha
    cases ha
  | ok _ =>
    rcases hg.add_cases hc with ⟨-, hadd⟩ | ⟨-, hadd⟩
    · rw [hadd] at ha
      cases ha
    · rw [hadd] at ha
      cases ha
      exact hg.withFragment f

theorem Reachable.tidy {g : Grouping} (hg : g.Reachable) : g.Tidy := by
  induction hg with
  | empty o => exact tidy_empty o
  | add _ ha ih => exact ih.of_add ha
  | addBatch _ fs ih => exact ih.addBatch fs
  | take _ _ | reset _ _ => exact tidy_of_blocks_empty rfl

/-- A batch with a fragment that fails its check is refused whole with the first such fault. A batch
without one leaves what its fragments leave when they are added one by one, whichever are refused;
it has no fault exactly if none is, and otherwise the fault of the first refused fragment on the
least axis. The options have a say in nothing but the count of distributed batches. -/
theorem batch_one_by_one {g : Grouping} (hg : g.Reachable) (fs : List Fragment) :
    (¬ Checked fs → ∃ before f after fault, fs = before ++ f :: after ∧ Checked before ∧
      f.check = .error fault ∧ g.addBatch fs = (g, some fault)) ∧
    (Checked fs →
      (g.addBatch fs).1 = { (g.addEach fs).grouping with
        parallelBatches :=
          g.parallelBatches + (if distributes g.options fs.length then 1 else 0) } ∧
      ((g.addBatch fs).2 = none ↔ (g.addEach fs).refused = []) ∧
      ((g.addEach fs).refused ≠ [] → ∃ f,
        FirstOnLeastAxis (f, .duplicateSource f.source f.axis.start) (g.addEach fs).refused ∧
        (g.addBatch fs).2 = some (.duplicateSource f.source f.axis.start))) ∧
    ∀ o : Options, ∃ n, { g with options := o }.addBatch fs =
      ({ (g.addBatch fs).1 with options := o, parallelBatches := n }, (g.addBatch fs).2) := by
  refine ⟨addBatch_of_not_checked, fun hc => ?_, addBatch_with g fs⟩
  refine ⟨addBatch_of_checked_eq hg.tidy hc, ?_⟩
  rcases addBatch_fault_cases hg.tidy hc with ⟨hnone, hfault⟩ | ⟨f, hfirst, hfault⟩
  · exact ⟨iff_of_true hfault hnone, fun hne => absurd hnone hne⟩
  · have hne : (g.addEach fs).refused ≠ [] := by
      obtain ⟨before, after, heq, -⟩ := hfirst
      simp [heq]
    refine ⟨iff_of_false ?_ hne, fun _ => ⟨f, hfirst, hfault⟩⟩
    rw [hfault]
    exact Option.some_ne_none _

/-- A source on a late axis, in a grouping that distributes batches of two fragments. -/
def holdingLate : Grouping :=
  ((empty ⟨true, 1, 2⟩).addBatch [⟨"a", .int, [.int 1], .list [50], 4⟩]).1

/-- Two axes in turn; what is held is repeated first, and then a fragment of the batch itself. -/
def repeating : List Fragment :=
  [⟨"a", .int, [.int 2], .list [50], 4⟩, ⟨"b", .bool, [.bool true], .list [0], 1⟩,
    ⟨"c", .int, [.null], .list [50], 4⟩, ⟨"b", .bool, [.bool false], .list [0], 1⟩]

theorem batch_one_by_one_repeating : holdingLate.Reachable ∧ Checked repeating ∧
    (holdingLate.addBatch repeating).1 =
      { (holdingLate.addEach repeating).grouping with parallelBatches := 1 } ∧
    (holdingLate.addEach repeating).taken.length = 2 ∧
    ∃ f, FirstOnLeastAxis (f, .duplicateSource f.source f.axis.start)
      (holdingLate.addEach repeating).refused ∧
      (holdingLate.addBatch repeating).2 = some (.duplicateSource f.source f.axis.start) := by
  have hreachable : holdingLate.Reachable := .addBatch (.empty _) _
  have hchecked : Checked repeating := by decide
  obtain ⟨-, hsame, -⟩ := batch_one_by_one hreachable repeating
  obtain ⟨hgrouping, -, hfault⟩ := hsame hchecked
  exact ⟨hreachable, hchecked, hgrouping, by decide, hfault (by decide)⟩

example : (holdingLate.addBatch repeating).2 = some (.duplicateSource "b" 0) := by decide

end SeriesTable.Grouping
