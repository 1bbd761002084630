import SeriesTable.Grouping.InPlace
import SeriesTable.Proofs.Grouping.Ledger
import SeriesTable.Proofs.Grouping.Reachable

/-
  Fragments inserted in place. Every layer has its checks before its changes, so an insertion with a
  fault leaves all as it was and otherwise does what the plain operation does (`run_insert`). In a
  reachable grouping the block finds nothing wrong with a checked fragment but a source that it has.

  Main statement: `insert_outcome`.
-/

namespace SeriesTable

/-- A plain result as the outcome of a change in place that changes nothing if there is a fault. -/
def outcome {σ : Type} (s : σ) : Except Fault σ → EStateM.Result Fault σ Unit
  | .ok s' => .ok () s'
  | .error fault => .error fault s

theorem run_ofExcept {σ α : Type} (x : Except Fault α) (s : σ) :
    EStateM.run (ofExcept x : EStateM Fault σ α) s =
      match x with
      | .ok a => .ok a s
      | .error fault => .error fault s := by
  cases x <;> rfl

namespace Block

theorem run_insertColumn (b : Block) (source : String) (c : Column) :
    (insertColumn source c).run b = outcome b (b.addColumn source c) := by
  unfold insertColumn addColumn
  by_cases hlength : c.length = b.sampleCount
  case neg => simp [hlength, outcome]
  by_cases hs : b.hasSource source
  · simp [hlength, hs, outcome]
  · simp [hlength, hs, outcome]

theorem run_insertFragment (b : Block) (f : Fragment) :
    (insertFragment f).run b = outcome b (b.addFragment f) := by
  unfold insertFragment
  by_cases ha : f.axis = b.axis
  case neg => simp [addFragment, ha, outcome]
  by_cases hs : b.hasSource f.source
  case pos => simp [addFragment, ha, hs, outcome]
  have hplain : b.addFragment f =
      Column.make f.source f.kind f.values >>= b.addColumn f.source := by
    rw [addFragment, if_neg (not_not_intro ha), if_neg hs]
  rw [hplain]
  cases Column.make f.source f.kind f.values with
  | error fault =>
    show _ = EStateM.Result.error fault b
    simp [ha, hs, run_ofExcept]
  | ok c =>
    show _ = outcome b (b.addColumn f.source c)
    simp [ha, hs, run_ofExcept, run_insertColumn]

theorem ofFragment_eq (f : Fragment) : ofFragment f = (empty f.axis).addFragment f := by
  rw [ofFragment, run_insertFragment]
  cases (empty f.axis).addFragment f <;> rfl

theorem axis_addColumn {b b' : Block} {source : String} {c : Column}
    (h : b.addColumn source c = .ok b') : b'.axis = b.axis := by
  unfold addColumn at h
  split at h
  · cases h
  · split at h <;> cases h
    rfl

theorem axis_addFragment {b b' : Block} {f : Fragment} (h : b.addFragment f = .ok b') :
    b'.axis = b.axis := by
  unfold addFragment at h
  split at h
  · cases h
  · split at h
    · cases h
    · cases hc : Column.make f.source f.kind f.values with
      | error fault =>
        rw [hc] at h
        cases h
      | ok c =>
        rw [hc] at h
        exact axis_addColumn h

end Block

namespace Grouping

variable {g h : Grouping} {f : Fragment}

/-- A block that refuses a fragment in its place is left as it was, and the grouping with it. -/
theorem run_change {b : Block} (hb : g.blocks.find? f.axis = some b) :
    (change f.axis b (Block.insertFragment f)).run g =
      outcome g ((b.addFragment f).map fun b => { g with blocks := g.blocks.insert f.axis b }) := by
  rw [EStateM.run, change, Block.run_insertFragment]
  cases b.addFragment f with
  | error fault =>
    show EStateM.Result.error fault { g with blocks := g.blocks.insert f.axis b } = .error fault g
    rw [SortedMap.insert_of_find? hb]
  | ok b => rfl

/-- Whatever the grouping, an insertion with a fault changes nothing, and one without does what the
plain operation does. -/
theorem run_insert (g : Grouping) (f : Fragment) :
    (insert f).run g = outcome g (g.add f) := by
  unfold insert add
  cases f.check with
  | error fault => rfl
  | ok _ =>
    cases hb : g.blocks.find? f.axis with
    | some b =>
      rw [blockFor_of_find? hb]
      simp only [EStateM.run_bind, run_ofExcept, EStateM.run_get, hb, run_change hb]
      cases b.addFragment f <;> rfl
    | none =>
      rw [blockFor_of_none hb]
      simp only [EStateM.run_bind, run_ofExcept, EStateM.run_get, hb, Block.ofFragment_eq]
      cases ha : (Block.empty f.axis).addFragment f with
      | error fault => rfl
      | ok b =>
        have haxis : b.axis = f.axis := Block.axis_addFragment ha
        rw [← haxis]
        rfl

/-! ## What an insertion adds -/

/-- What a reachable grouping holds are some fragments, each once. -/
theorem Reachable.holds (hg : g.Reachable) : ∃ fs, g.Holds fs := by
  induction hg with
  | empty o => exact ⟨[], holds_empty o⟩
  | @add g h f _ ha ih =>
    obtain ⟨fs, hholds⟩ := ih
    have hadd := hholds.add f
    split at hadd
    · obtain ⟨h', hok, hholds'⟩ := hadd
      rw [ha] at hok
      cases hok
      exact ⟨_, hholds'⟩
    · obtain ⟨fault, herror⟩ := hadd
      rw [ha] at herror
      cases herror
  | addBatch _ ds ih =>
    obtain ⟨fs, hholds⟩ := ih
    exact ⟨_, (hholds.after (.batch ds)).1⟩
  | @take g _ _ => exact ⟨[], (holds_empty g.options).of_blocks rfl⟩
  | reset _ _ => exact ⟨[], holds_empty _⟩

theorem Tidy.mem_axes_iff (hg : g.Tidy) {axis : Axis} :
    axis ∈ g.list.map Block.axis ↔ (g.blocks.find? axis).isSome := by
  rw [List.mem_map, Option.isSome_iff_exists]
  constructor
  · rintro ⟨b, hb, rfl⟩
    exact ⟨b, hg.mem_list_iff.mp hb⟩
  · rintro ⟨b, hb⟩
    have haxis := hg.axis_eq axis b hb
    exact ⟨b, hg.mem_list_iff.mpr (haxis ▸ hb), haxis⟩

/-- The grouping has a column for the axis and the source in one of its blocks. -/
theorem Tidy.isSome_column?_iff (hg : g.Tidy) {axis : Axis} {source : String} :
    (g.column? axis source).isSome ↔ ∃ b ∈ g.list, b.axis = axis ∧ b.hasSource source := by
  rw [column?]
  cases hb : g.blocks.find? axis with
  | none =>
    rw [blockFor_of_none hb]
    refine iff_of_false (by simp) ?_
    rintro ⟨b, hmem, rfl, -⟩
    rw [hg.mem_list_iff.mp hmem] at hb
    cases hb
  | some b =>
    rw [blockFor_of_find? hb]
    have haxis := hg.axis_eq axis b hb
    constructor
    · exact fun hs => ⟨b, hg.mem_list_iff.mpr (haxis ▸ hb), haxis, hs⟩
    · rintro ⟨d, hmem, rfl, hs⟩
      obtain rfl := Option.some.inj ((hg.mem_list_iff.mp hmem).symm.trans hb)
      exact hs

/-- The grouping `h` is `g` with one fragment more, which is one column of the block of its axis: a
new block if there was none. The other columns and blocks are the same. -/
structure Gains (g h : Grouping) (f : Fragment) : Prop where
  filled : (h.list.flatMap Block.filled).Perm (f.filled :: g.list.flatMap Block.filled)
  axes : (h.list.map Block.axis).Perm
    (if f.axis ∈ g.list.map Block.axis then g.list.map Block.axis
      else f.axis :: g.list.map Block.axis)
  others : ∀ b : Block, b.axis ≠ f.axis → (b ∈ h.list ↔ b ∈ g.list)
  fragments : h.fragments = g.fragments + 1
  bytes : h.bytes = g.bytes + f.size
  options : h.options = g.options
  parallelBatches : h.parallelBatches = g.parallelBatches

theorem Reachable.gains (hg : g.Reachable) (ha : g.add f = .ok (g.withFragment f)) :
    Gains g (g.withFragment f) f := by
  have htidy := hg.tidy
  have htidy' := htidy.withFragment f
  have hfind (axis : Axis) : (g.withFragment f).blocks.find? axis =
      if axis = f.axis then some _ else g.blocks.find? axis := SortedMap.find?_insert ..
  refine
    { filled := ?filled
      axes := ?axes
      others := ?others
      fragments := rfl
      bytes := rfl
      options := rfl
      parallelBatches := rfl }
  case filled =>
    obtain ⟨fs, hholds⟩ := hg.holds
    have hadd := hholds.add f
    rw [ha] at hadd
    split at hadd
    · obtain ⟨h, hok, hholds'⟩ := hadd
      cases hok
      refine hholds'.filled_perm.trans ?_
      rw [List.map_append]
      exact List.perm_append_comm.trans (hholds.filled_perm.symm.cons _)
    · obtain ⟨fault, herror⟩ := hadd
      cases herror
  case axes =>
    have hmem {axis : Axis} : axis ∈ (g.withFragment f).list.map Block.axis ↔
        axis = f.axis ∨ axis ∈ g.list.map Block.axis := by
      rw [htidy'.mem_axes_iff, htidy.mem_axes_iff, hfind]
      by_cases h : axis = f.axis <;> simp [h]
    split
    · rename_i hold
      refine (List.perm_ext_iff_of_nodup htidy'.nodup_axes htidy.nodup_axes).mpr fun axis => ?_
      rw [hmem, or_iff_right_of_imp]
      rintro rfl
      exact hold
    · rename_i hnew
      refine (List.perm_ext_iff_of_nodup htidy'.nodup_axes
        (List.nodup_cons.mpr ⟨hnew, htidy.nodup_axes⟩)).mpr fun axis => ?_
      rw [hmem, List.mem_cons]
  case others =>
    intro b hb
    rw [htidy'.mem_list_iff, htidy.mem_list_iff, hfind, if_neg hb]

/-- In a reachable grouping an insertion has the fault of the fragment's check, or else finds its
source in the block of its axis, and then nothing is changed; and otherwise the grouping gains the
fragment. No other fault comes up. -/
theorem insert_outcome (hg : g.Reachable) (f : Fragment) :
    (∀ fault, f.check = .error fault → (insert f).run g = .error fault g) ∧
    (f.check = .ok () →
      ((∃ b ∈ g.list, b.axis = f.axis ∧ b.hasSource f.source) →
        (insert f).run g = .error (.duplicateSource f.source f.axis.start) g) ∧
      ((¬ ∃ b ∈ g.list, b.axis = f.axis ∧ b.hasSource f.source) →
        ∃ h, (insert f).run g = .ok () h ∧ Gains g h f)) := by
  rw [run_insert, ← hg.tidy.isSome_column?_iff]
  constructor
  · intro fault hc
    rw [add_eq_error_of_check hc]
    rfl
  · intro hc
    rcases hg.tidy.add_cases hc with ⟨hsome, hadd⟩ | ⟨hnone, hadd⟩
    · refine ⟨fun _ => ?_, fun hnot => absurd hsome hnot⟩
      rw [hadd]
      rfl
    · refine ⟨fun hsome => ?_, fun _ => ?_⟩
      · rw [hnone] at hsome
        cases hsome
      · exact ⟨_, by rw [hadd]; rfl, hg.gains hadd⟩

/-- One source on one axis. -/
def holdingOne : Grouping :=
  ((empty {}).addBatch [⟨"a", .int, [.int 1, .null], .list [0, 10], 8⟩]).1

/-- The source again; another one with too few values; and with as many as the axis has instants. -/
theorem insert_outcome_holdingOne :
    let again : Fragment := ⟨"a", .int, [.int 2, .int 3], .list [0, 10], 8⟩
    let short : Fragment := ⟨"b", .bool, [.bool true], .list [0, 10], 1⟩
    let fitting : Fragment := ⟨"b", .bool, [.bool true, .null], .list [0, 10], 2⟩
    holdingOne.Reachable ∧
    (insert again).run holdingOne = .error (.duplicateSource "a" 0) holdingOne ∧
    (insert short).run holdingOne =
      .error (.malformedFragment "b" (.lengthMismatch 1 2)) holdingOne ∧
    ∃ h, (insert fitting).run holdingOne = .ok () h ∧ Gains holdingOne h fitting := by
  have hreachable : holdingOne.Reachable := .addBatch (.empty _) _
  exact ⟨hreachable, ((insert_outcome hreachable _).2 (by decide)).1 (by decide),
    (insert_outcome hreachable _).1 _ (by decide),
    ((insert_outcome hreachable _).2 (by decide)).2 (by decide)⟩

end Grouping

end SeriesTable
