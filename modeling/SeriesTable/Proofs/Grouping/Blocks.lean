import SeriesTable.Proofs.Grouping.Contents
import SeriesTable.Proofs.Block.Samples
import SeriesTable.Proofs.Column.Kinds

/-
  The blocks of a grouping, said of the fragments that it holds. The blocks are sound and in the
  order of their axes, their columns are the fragments, and at an instant the first block that knows
  a value is the one of the least fragment that has a value there (`Holds.chosen`).
-/

namespace SeriesTable

namespace Fragment

/-- The fragment has this value at an instant of its axis. -/
def Has (f : Fragment) (t : Int) (v : Value) : Prop :=
  ∃ i : Nat, f.axis.instants[i]? = some t ∧ f.values[i]? = some v

/-- The value of a source at an instant, of all that some fragments have there: that of the fragment
with the least axis among those whose value is not missing; missing if there is none. -/
def Chosen (fs : List Fragment) (source : String) (t : Int) (v : Value) : Prop :=
  (v = .null ∧ ∀ f ∈ fs, f.source = source → ∀ w, f.Has t w → w = .null) ∨
    v ≠ .null ∧ ∃ f ∈ fs, f.source = source ∧ f.Has t v ∧
      ∀ d ∈ fs, d.source = source → ∀ w, d.Has t w → w ≠ .null → compare f.axis d.axis ≠ .gt

/-- Fragments of one source are of one kind. -/
def KindsAgree (fs : List Fragment) : Prop :=
  ∀ f ∈ fs, ∀ d ∈ fs, f.source = d.source → f.kind = d.kind

instance (fs : List Fragment) : Decidable (KindsAgree fs) :=
  inferInstanceAs (Decidable (∀ f ∈ fs, ∀ d ∈ fs, _ → _))

end Fragment

namespace Grouping

variable {g : Grouping} {fs : List Fragment} {b : Block}

theorem Tidy.mem_list_iff (h : g.Tidy) : b ∈ g.list ↔ g.blocks.find? b.axis = some b := by
  rw [list, SortedMap.mem_values_iff]
  constructor
  · rintro ⟨axis, hb⟩
    rwa [h.axis_eq axis b hb]
  · exact fun hb => ⟨b.axis, hb⟩

/-- The blocks are listed in the order of their axes. -/
theorem Tidy.ordered_list (h : g.Tidy) :
    g.list.Pairwise fun a b => compare a.axis b.axis = .lt := by
  refine List.pairwise_map.mpr (g.blocks.sorted.imp_of_mem ?_)
  intro a b ha hb hlt
  rw [h.axis_eq a.1 a.2 (SortedMap.find?_eq_some_iff.mpr ha),
    h.axis_eq b.1 b.2 (SortedMap.find?_eq_some_iff.mpr hb)]
  exact hlt

theorem Tidy.nodup_axes (h : g.Tidy) : (g.list.map Block.axis).Nodup := by
  refine List.pairwise_map.mpr (h.ordered_list.imp ?_)
  intro a b hlt heq
  rw [heq] at hlt
  simp at hlt

theorem Tidy.sorted_list (h : g.Tidy) : g.list.Pairwise fun a b => a.start ≤ b.start := by
  refine h.ordered_list.imp ?_
  intro a b hlt
  exact Axis.start_le_of_compare (by rw [hlt]; decide)

namespace Holds

variable {source : String} {c : Column} {t : Int}

theorem column?_of_mem_list (hg : g.Holds fs) (hb : b ∈ g.list) :
    b.column? source = some c ↔ ∃ f ∈ fs, f.axis = b.axis ∧ f.source = source ∧ f.column = c := by
  rw [← hg.column?_iff, Grouping.column?, blockFor_of_find? (hg.tidy.mem_list_iff.mp hb)]

theorem exists_block (hg : g.Holds fs) {f : Fragment} (hf : f ∈ fs) :
    ∃ b ∈ g.list, b.axis = f.axis ∧ b.column? f.source = some f.column := by
  have hcolumn := (hg.column?_iff f.axis f.source f.column).mpr ⟨f, hf, rfl, rfl, rfl⟩
  cases hb : g.blocks.find? f.axis with
  | none =>
    rw [Grouping.column?, blockFor_of_none hb] at hcolumn
    cases hcolumn
  | some b =>
    rw [Grouping.column?, blockFor_of_find? hb] at hcolumn
    exact ⟨b, SortedMap.mem_values_iff.mpr ⟨_, hb⟩, hg.tidy.axis_eq _ b hb, hcolumn⟩

theorem exists_fragment (hg : g.Holds fs) (hb : b ∈ g.list) : ∃ f ∈ fs, f.axis = b.axis := by
  have hfind := hg.tidy.mem_list_iff.mp hb
  obtain ⟨source, c, hc⟩ := Block.isEmpty_eq_false_iff.mp (hg.tidy.inhabited _ b hfind)
  obtain ⟨f, hf, ha, -⟩ := (hg.column?_of_mem_list hb).mp hc
  exact ⟨f, hf, ha⟩

theorem sound (hg : g.Holds fs) (hb : b ∈ g.list) : b.Sound where
  check_axis := by
    obtain ⟨f, hf, ha⟩ := hg.exists_fragment hb
    rw [← ha]
    exact (Fragment.check_eq_ok_iff.mp (hg.compatible.1 f hf)).2.2.2.1
  lengths source c hc := by
    obtain ⟨f, hf, ha, -, rfl⟩ := (hg.column?_of_mem_list hb).mp hc
    rw [Block.sampleCount, ← ha]
    exact (Fragment.check_eq_ok_iff.mp (hg.compatible.1 f hf)).2.2.2.2.1

theorem mem_instants_iff (hg : g.Holds fs) :
    (∃ b ∈ g.list, t ∈ b.instants) ↔ ∃ f ∈ fs, t ∈ f.axis.instants := by
  constructor
  · rintro ⟨b, hb, ht⟩
    obtain ⟨f, hf, ha⟩ := hg.exists_fragment hb
    exact ⟨f, hf, by rwa [ha]⟩
  · rintro ⟨f, hf, ht⟩
    obtain ⟨b, hb, ha, -⟩ := hg.exists_block hf
    exact ⟨b, hb, by rwa [Block.instants, ha]⟩

theorem declares_iff (hg : g.Holds fs) {kind : Kind} :
    Declares (g.list.map Block.columns) source kind ↔
      ∃ f ∈ fs, f.source = source ∧ f.kind = kind := by
  constructor
  · rintro ⟨m, hm, hk⟩
    obtain ⟨b, hb, rfl⟩ := List.mem_map.mp hm
    obtain ⟨c, hc, rfl⟩ := Option.map_eq_some_iff.mp hk
    obtain ⟨f, hf, -, hs, rfl⟩ := (hg.column?_of_mem_list hb).mp hc
    exact ⟨f, hf, hs, rfl⟩
  · rintro ⟨f, hf, rfl, rfl⟩
    obtain ⟨b, hb, -, hc⟩ := hg.exists_block hf
    refine ⟨b.columns, List.mem_map_of_mem hb, ?_⟩
    rw [← Block.column?, hc]
    rfl

theorem uniform_iff (hg : g.Holds fs) :
    Uniform (g.list.map Block.columns) ↔ Fragment.KindsAgree fs := by
  constructor
  · intro h f hf d hd hs
    exact h f.source f.kind d.kind (hg.declares_iff.mpr ⟨f, hf, rfl, rfl⟩)
      (hg.declares_iff.mpr ⟨d, hd, hs.symm, rfl⟩)
  · intro h source k l hk hl
    obtain ⟨f, hf, hs, rfl⟩ := hg.declares_iff.mp hk
    obtain ⟨d, hd, hs', rfl⟩ := hg.declares_iff.mp hl
    exact h f hf d hd (hs.trans hs'.symm)

/-- A block knows what the fragment of its axis has. -/
theorem known?_eq_some_iff (hg : g.Holds fs) (hb : b ∈ g.list) {v : Value} :
    b.known? source t = some v ↔
      v ≠ .null ∧ ∃ f ∈ fs, f.axis = b.axis ∧ f.source = source ∧ f.Has t v := by
  rw [Block.known?, Option.bind_eq_some_iff]
  constructor
  · rintro ⟨c, hc, hk⟩
    obtain ⟨f, hf, ha, hs, rfl⟩ := (hg.column?_of_mem_list hb).mp hc
    obtain ⟨hv, i, ht, hval⟩ := (Column.known?_eq_some_iff (hg.sound hb).increasing.nodup).mp hk
    exact ⟨hv, f, hf, ha, hs, i, by rwa [ha], hval⟩
  · rintro ⟨hv, f, hf, ha, hs, i, ht, hval⟩
    refine ⟨f.column, (hg.column?_of_mem_list hb).mpr ⟨f, hf, ha, hs, rfl⟩, ?_⟩
    rw [Column.known?_eq_some_iff (hg.sound hb).increasing.nodup]
    exact ⟨hv, i, by rwa [Block.instants, ← ha], hval⟩

/-- The first block that knows a value has that of the least fragment. -/
theorem chosen (hg : g.Holds fs) (source : String) (t : Int) :
    Fragment.Chosen fs source t
      ((g.list.findSome? fun b => b.known? source t).getD .null) := by
  cases hfound : g.list.findSome? fun b => b.known? source t with
  | none =>
    refine .inl ⟨rfl, ?_⟩
    intro f hf hs w hw
    apply Classical.byContradiction
    intro hnull
    obtain ⟨b, hb, ha, -⟩ := hg.exists_block hf
    have hknown := (hg.known?_eq_some_iff hb).mpr ⟨hnull, f, hf, ha.symm, hs, hw⟩
    rw [List.findSome?_eq_none_iff.mp hfound b hb] at hknown
    cases hknown
  | some v =>
    obtain ⟨before, b, after, hlist, hknown, hnone⟩ := List.findSome?_eq_some_iff.mp hfound
    have hb : b ∈ g.list := by
      rw [hlist]
      simp
    obtain ⟨hv, f, hf, ha, hs, hhas⟩ := (hg.known?_eq_some_iff hb).mp hknown
    refine .inr ⟨hv, f, hf, hs, hhas, ?_⟩
    intro d hd hds w hw hnull
    obtain ⟨e, he, hea, -⟩ := hg.exists_block hd
    have hknown' := (hg.known?_eq_some_iff he).mpr ⟨hnull, d, hd, hea.symm, hds, hw⟩
    -- The block of `d` knows a value, so it does not stand before `b`.
    have hordered := hg.tidy.ordered_list
    rw [hlist] at he hordered
    rw [ha, ← hea]
    rcases List.mem_append.mp he with he | he
    · rw [hnone e he] at hknown'
      cases hknown'
    · rcases List.mem_cons.mp he with rfl | he
      · simp
      · rw [List.rel_of_pairwise_cons (List.pairwise_append.mp hordered).2.1 he]
        decide

end Holds

end Grouping

end SeriesTable
