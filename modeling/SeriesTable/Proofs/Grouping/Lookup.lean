import SeriesTable.Grouping
import SeriesTable.Proofs.SortedMap.Lookup

/-
  Groupings by look-up. What a tidy grouping holds is what it answers for every axis and source
  (`blocks_eq_of_column?`). A checked fragment is taken in exactly if nothing is held for its axis
  and source (`add_eq`), and then that is the only answer that changes (`column?_placed`).
-/

namespace SeriesTable

/-! ## Fragments and blocks -/

namespace Fragment

/-- The values as a column. -/
def column (f : Fragment) : Column := ⟨f.kind, f.values⟩

theorem check_eq_ok_iff {f : Fragment} :
    f.check = .ok () ↔ f.source ≠ "" ∧ f.kind.Supported ∧ f.values ≠ [] ∧
      f.axis.check = .ok () ∧ f.values.length = f.axis.sampleCount ∧
      ∀ v ∈ f.values, v.Fits f.kind := by
  rw [← firstUnfit?_eq_none_iff]
  unfold check
  by_cases hs : f.source = ""
  · simp [hs]
  by_cases hk : f.kind.Supported
  case neg => simp [hs, hk]
  by_cases hv : f.values = []
  · simp [hs, hk, hv]
  cases ha : f.axis.check with
  | error flaw => simp [hs, hk, hv]
  | ok _ =>
    by_cases hl : f.values.length = f.axis.sampleCount
    case neg => simp [hs, hk, hv, hl]
    cases hu : firstUnfit? f.kind f.values with
    | some v => simp [hs, hk, hv, hl]
    | none => simp [hs, hk, hv, hl]

end Fragment

namespace Block

/-- A checked fragment of the block's axis is put in unless its source is there. -/
theorem addFragment_of_check {b : Block} {f : Fragment} (hc : f.check = .ok ())
    (ha : f.axis = b.axis) :
    b.addFragment f =
      if b.hasSource f.source then .error (.duplicateSource f.source b.start)
      else .ok { b with columns := b.columns.insert f.source f.column } := by
  obtain ⟨-, hkind, -, -, hlength, hfits⟩ := Fragment.check_eq_ok_iff.mp hc
  have hcolumn : Column.make f.source f.kind f.values = .ok f.column := by
    rw [Column.make, if_neg (not_not_intro hkind), firstUnfit?_eq_none_iff.mpr hfits]
    rfl
  have hcount : f.column.length = b.sampleCount := by
    rw [sampleCount, ← ha]
    exact hlength
  rw [addFragment, if_neg (not_not_intro ha), hcolumn]
  split
  · rfl
  · rename_i hs
    show b.addColumn f.source f.column = _
    rw [addColumn, if_neg (not_not_intro hcount), if_neg hs]

theorem hasSource_eq (b : Block) (source : String) :
    b.hasSource source = (b.column? source).isSome := rfl

theorem column?_insert (b : Block) (source other : String) (c : Column) :
    column? { b with columns := b.columns.insert source c } other =
      if other = source then some c else b.column? other :=
  SortedMap.find?_insert ..

@[simp] theorem column?_empty (axis : Axis) (source : String) :
    (empty axis).column? source = none := rfl

theorem isEmpty_eq_false_iff {b : Block} :
    b.columns.isEmpty = false ↔ ∃ source c, b.column? source = some c :=
  SortedMap.isEmpty_eq_false_iff

end Block

/-! ## Groupings -/

namespace Grouping

/-- The column held for an axis and a source. -/
def column? (g : Grouping) (axis : Axis) (source : String) : Option Column :=
  (g.blockFor axis).column? source

/-- Blocks stand under their own axes, and none is empty. -/
structure Tidy (g : Grouping) : Prop where
  axis_eq : ∀ axis b, g.blocks.find? axis = some b → b.axis = axis
  inhabited : ∀ axis b, g.blocks.find? axis = some b → b.columns.isEmpty = false

theorem tidy_of_blocks_empty {g : Grouping} (hb : g.blocks = ∅) : g.Tidy where
  axis_eq _ _ h := by simp [hb] at h
  inhabited _ _ h := by simp [hb] at h

theorem tidy_empty (o : Options) : (empty o).Tidy := tidy_of_blocks_empty rfl

theorem blockFor_of_find? {g : Grouping} {axis : Axis} {b : Block}
    (h : g.blocks.find? axis = some b) : g.blockFor axis = b := by
  rw [blockFor, h]
  rfl

theorem blockFor_of_none {g : Grouping} {axis : Axis} (h : g.blocks.find? axis = none) :
    g.blockFor axis = Block.empty axis := by
  rw [blockFor, h]
  rfl

theorem Tidy.axis_blockFor {g : Grouping} (h : g.Tidy) (axis : Axis) :
    (g.blockFor axis).axis = axis := by
  cases hb : g.blocks.find? axis with
  | none => rw [blockFor_of_none hb]; rfl
  | some b => rw [blockFor_of_find? hb]; exact h.axis_eq axis b hb

/-- A block is held exactly if some column of it is. -/
theorem Tidy.find?_eq_none_iff {g : Grouping} (h : g.Tidy) {axis : Axis} :
    g.blocks.find? axis = none ↔ ∀ source, g.column? axis source = none := by
  constructor
  · intro hb source
    rw [column?, blockFor_of_none hb, Block.column?_empty]
  · intro hnone
    cases hb : g.blocks.find? axis with
    | none => rfl
    | some b =>
      obtain ⟨source, c, hc⟩ := Block.isEmpty_eq_false_iff.mp (h.inhabited axis b hb)
      have := hnone source
      rw [column?, blockFor_of_find? hb, hc] at this
      cases this

/-- Tidy groupings that answer alike hold the same blocks. -/
theorem blocks_eq_of_column? {g h : Grouping} (hg : g.Tidy) (hh : h.Tidy)
    (heq : ∀ axis source, g.column? axis source = h.column? axis source) :
    g.blocks = h.blocks := by
  refine SortedMap.ext_find? fun axis => ?_
  have hnone : g.blocks.find? axis = none ↔ h.blocks.find? axis = none := by
    rw [hg.find?_eq_none_iff, hh.find?_eq_none_iff]
    simp only [heq]
  cases hb : g.blocks.find? axis with
  | none => exact (hnone.mp hb).symm
  | some b =>
    cases hd : h.blocks.find? axis with
    | none =>
      rw [hnone.mpr hd] at hb
      cases hb
    | some d =>
      have haxis := (hg.axis_eq axis b hb).trans (hh.axis_eq axis d hd).symm
      have hcolumns : b.columns = d.columns := SortedMap.ext_find? fun source => by
        have := heq axis source
        rwa [column?, column?, blockFor_of_find? hb, blockFor_of_find? hd] at this
      cases b
      cases d
      simp_all

/-- The blocks with a fragment put into the one of its axis. -/
def placed (g : Grouping) (f : Fragment) : SortedMap Axis Block :=
  g.blocks.insert f.axis { g.blockFor f.axis with
    columns := (g.blockFor f.axis).columns.insert f.source f.column }

theorem Tidy.add_eq {g : Grouping} (h : g.Tidy) {f : Fragment} (hc : f.check = .ok ()) :
    g.add f =
      if (g.column? f.axis f.source).isSome then
        .error (.duplicateSource f.source f.axis.start)
      else
        .ok { g with
          blocks := g.placed f
          fragments := g.fragments + 1
          bytes := g.bytes + f.size } := by
  have haxis := h.axis_blockFor f.axis
  rw [add, hc]
  show (do let block ← (g.blockFor f.axis).addFragment f; _) = _
  rw [Block.addFragment_of_check hc haxis.symm, Block.hasSource_eq, ← column?]
  split
  · rw [Block.start, haxis]
    rfl
  · rfl

theorem add_eq_error_of_check {g : Grouping} {f : Fragment} {fault : Fault}
    (hc : f.check = .error fault) : g.add f = .error fault := by
  rw [add, hc]
  rfl

theorem blockFor_placed {g h : Grouping} {f : Fragment} (hb : h.blocks = g.placed f)
    (axis : Axis) :
    h.blockFor axis = if axis = f.axis then
      { g.blockFor f.axis with
        columns := (g.blockFor f.axis).columns.insert f.source f.column }
      else g.blockFor axis := by
  rw [blockFor, hb, placed, SortedMap.find?_insert]
  split
  · rfl
  · rfl

theorem column?_placed {g h : Grouping} {f : Fragment} (hb : h.blocks = g.placed f) (axis : Axis)
    (source : String) :
    h.column? axis source =
      if axis = f.axis ∧ source = f.source then some f.column else g.column? axis source := by
  rw [column?, blockFor_placed hb]
  by_cases ha : axis = f.axis
  · subst ha
    rw [if_pos rfl, Block.column?_insert, column?]
    simp
  · rw [if_neg ha, if_neg fun h => ha h.1, column?]

theorem Tidy.placed {g h : Grouping} (hg : g.Tidy) {f : Fragment} (hb : h.blocks = g.placed f) :
    h.Tidy := by
  have hfind : ∀ axis b, h.blocks.find? axis = some b → axis ≠ f.axis →
      g.blocks.find? axis = some b := by
    intro axis b hfind hne
    rwa [hb, Grouping.placed, SortedMap.find?_insert, if_neg hne] at hfind
  have hself := blockFor_placed hb f.axis
  rw [if_pos rfl] at hself
  constructor
  · intro axis b hfound
    by_cases ha : axis = f.axis
    · subst ha
      rw [← blockFor_of_find? hfound, hself]
      exact hg.axis_blockFor f.axis
    · exact hg.axis_eq axis b (hfind axis b hfound ha)
  · intro axis b hfound
    by_cases ha : axis = f.axis
    · subst ha
      rw [← blockFor_of_find? hfound, hself, Block.isEmpty_eq_false_iff]
      exact ⟨f.source, f.column, by rw [Block.column?_insert, if_pos rfl]⟩
    · exact hg.inhabited axis b (hfind axis b hfound ha)

end Grouping

end SeriesTable
