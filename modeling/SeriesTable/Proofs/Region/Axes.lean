import Mathlib.Data.Finset.Card
import SeriesTable.Proofs.PagedTable.Fragments

/-
  Regions said of the axes of fragments. A grouping has one block for each axis among the fragments
  that it holds (`Holds.perm_axes`), and blocks are linked exactly as their axes are. So the regions
  are the components of the overlap of these axes (`Holds.axisComponents`).
-/

namespace SeriesTable

namespace Axis

/-- A chain of axes of `as`, each overlapping the next in time, leads from one axis to the other. -/
inductive Chained (as : List Axis) : Axis → Axis → Prop where
  | same {a : Axis} (ha : a ∈ as) : Chained as a a
  | next {a b c : Axis} (hab : Chained as a b) (hc : c ∈ as) (hbc : b.span.Meets c.span) :
      Chained as a c

theorem Chained.mem_right {as : List Axis} {a b : Axis} (h : Chained as a b) : b ∈ as := by
  cases h with
  | same ha => exact ha
  | next _ hc _ => exact hc

/-- The different axes of `as` in groups, two axes in one group exactly if they are chained. -/
structure Components (as : List Axis) (groups : List (List Axis)) : Prop where
  perm : groups.flatten.Perm as.dedup
  nonempty : ∀ g ∈ groups, g ≠ []
  chained : ∀ (i j : Nat) (hi : i < groups.length) (hj : j < groups.length),
    ∀ a ∈ groups[i], ∀ b ∈ groups[j], (i = j ↔ Chained as a b)

namespace Components

variable {as : List Axis} {groups others : List (List Axis)}

theorem mem_iff (h : Components as groups) {a : Axis} : a ∈ as ↔ ∃ g ∈ groups, a ∈ g := by
  rw [← List.mem_dedup, ← h.perm.mem_iff, List.mem_flatten]

theorem mem_group_iff (h : Components as groups) {g : List Axis} (hg : g ∈ groups) {a b : Axis}
    (ha : a ∈ g) : b ∈ g ↔ Chained as a b := by
  obtain ⟨i, hi, rfl⟩ := List.getElem_of_mem hg
  constructor
  · exact fun hb => (h.chained i i hi hi a ha b hb).mp rfl
  · intro hchain
    obtain ⟨d, hd, hb⟩ := h.mem_iff.mp hchain.mem_right
    obtain ⟨j, hj, rfl⟩ := List.getElem_of_mem hd
    obtain rfl := (h.chained i j hi hj a ha b hb).mpr hchain
    exact hb

/-- As sets, the groups are what the axes are chained to. -/
theorem mem_toFinset_iff (h : Components as groups) {s : Finset Axis} :
    s ∈ groups.map List.toFinset ↔ ∃ a ∈ as, ∀ b, b ∈ s ↔ Chained as a b := by
  rw [List.mem_map]
  constructor
  · rintro ⟨g, hg, rfl⟩
    obtain ⟨a, ha⟩ := List.exists_mem_of_ne_nil g (h.nonempty g hg)
    exact ⟨a, h.mem_iff.mpr ⟨g, hg, ha⟩, fun b => by rw [List.mem_toFinset, h.mem_group_iff hg ha]⟩
  · rintro ⟨a, ha, hs⟩
    obtain ⟨g, hg, hag⟩ := h.mem_iff.mp ha
    exact ⟨g, hg, Finset.ext fun b => by rw [List.mem_toFinset, h.mem_group_iff hg hag, hs]⟩

theorem nodup_toFinset (h : Components as groups) : (groups.map List.toFinset).Nodup := by
  refine List.pairwise_map.mpr (List.pairwise_iff_getElem.mpr fun i j hi hj hij heq => ?_)
  obtain ⟨a, ha⟩ := List.exists_mem_of_ne_nil _ (h.nonempty _ (List.getElem_mem hi))
  have hb : a ∈ groups[j] := by rwa [← List.mem_toFinset, ← heq, List.mem_toFinset]
  have hself := (h.chained i i hi hi a ha a ha).mp rfl
  exact absurd ((h.chained i j hi hj a ha a hb).mpr hself) (Nat.ne_of_lt hij)

/-- Axes fall into components in one way only, so their number is one number. -/
theorem countP_eq (h : Components as groups) (ho : Components as others) :
    (groups.countP fun g => 2 ≤ g.length) = others.countP fun g => 2 ≤ g.length := by
  have hcard {groups : List (List Axis)} (h : Components as groups) :
      (groups.countP fun g => 2 ≤ g.length) =
        (groups.map List.toFinset).countP fun s => 2 ≤ s.card := by
    rw [List.countP_map]
    refine List.countP_congr fun g hg => ?_
    have hnodup : groups.flatten.Nodup := h.perm.nodup_iff.mpr (List.nodup_dedup as)
    simp [List.toFinset_card_of_nodup ((List.nodup_flatten.mp hnodup).1 g hg)]
  have hperm : (groups.map List.toFinset).Perm (others.map List.toFinset) :=
    (List.perm_ext_iff_of_nodup h.nodup_toFinset ho.nodup_toFinset).mpr fun s => by
      rw [h.mem_toFinset_iff, ho.mem_toFinset_iff]
  rw [hcard h, hcard ho, hperm.countP_eq]

end Components

end Axis

/-- The axes of the blocks, region by region. -/
def Resolution.axes (r : Resolution) : List (List Axis) :=
  r.regions.map fun g => g.blocks.map Block.axis

namespace Grouping.Holds

variable {g : Grouping} {fs : List Fragment}

theorem mem_axes_iff (hg : g.Holds fs) {axis : Axis} :
    axis ∈ g.list.map Block.axis ↔ axis ∈ fs.map Fragment.axis := by
  rw [List.mem_map, List.mem_map]
  constructor
  · rintro ⟨b, hb, rfl⟩
    exact hg.exists_fragment hb
  · rintro ⟨f, hf, rfl⟩
    obtain ⟨b, hb, haxis, -⟩ := hg.exists_block hf
    exact ⟨b, hb, haxis⟩

theorem perm_axes (hg : g.Holds fs) :
    (g.list.map Block.axis).Perm (fs.map Fragment.axis).dedup := by
  refine (List.perm_ext_iff_of_nodup hg.tidy.nodup_axes (List.nodup_dedup _)).mpr fun axis => ?_
  rw [List.mem_dedup, hg.mem_axes_iff]

theorem eq_of_axis_eq (hg : g.Holds fs) {a b : Block} (ha : a ∈ g.list) (hb : b ∈ g.list)
    (h : a.axis = b.axis) : a = b := by
  have hfound := hg.tidy.mem_list_iff.mp ha
  rw [h, hg.tidy.mem_list_iff.mp hb] at hfound
  exact (Option.some.inj hfound).symm

theorem linked_iff (hg : g.Holds fs) {a b : Block} (ha : a ∈ g.list) (hb : b ∈ g.list) :
    Linked g.list a b ↔ Axis.Chained (fs.map Fragment.axis) a.axis b.axis := by
  have hmem {b : Block} (hb : b ∈ g.list) : b.axis ∈ fs.map Fragment.axis :=
    hg.mem_axes_iff.mp (List.mem_map_of_mem hb)
  constructor
  · intro h
    clear hb
    induction h with
    | same _ => exact .same (hmem ha)
    | next _ hc hbc ih => exact .next ih (hmem hc) hbc
  · intro h
    generalize hlast : b.axis = last at h
    induction h generalizing b with
    | same _ => exact hg.eq_of_axis_eq hb ha hlast ▸ .same hb
    | next hchain _ hmeets ih =>
      subst hlast
      obtain ⟨c, hc, rfl⟩ := List.mem_map.mp (hg.mem_axes_iff.mpr hchain.mem_right)
      exact .next (ih hc rfl) hb hmeets

/-- The regions are the components of the overlap of the fragments' axes. -/
theorem axisComponents (hg : g.Holds fs) :
    Axis.Components (fs.map Fragment.axis) (Resolution.ofBlocks g.list).axes := by
  have hc := hg.components
  refine ⟨?_, ?_, ?_⟩
  · rw [Resolution.axes, ← List.flatMap_def, ← List.map_flatMap, hc.blocks]
    exact hg.perm_axes
  · intro axes haxes
    obtain ⟨r, -, rfl⟩ := List.mem_map.mp haxes
    simpa using r.blocks_ne_nil
  · intro i j hi hj a ha b hb
    have hregions : (Resolution.ofBlocks g.list).axes.length =
        (Resolution.ofBlocks g.list).regions.length := List.length_map ..
    simp only [Resolution.axes, List.getElem_map] at ha hb
    obtain ⟨x, hx, rfl⟩ := List.mem_map.mp ha
    obtain ⟨y, hy, rfl⟩ := List.mem_map.mp hb
    have hxmem := hc.mem_blocks (List.getElem_mem (hregions ▸ hi)) hx
    have hymem := hc.mem_blocks (List.getElem_mem (hregions ▸ hj)) hy
    rw [← hg.linked_iff hxmem hymem]
    exact hc.eq_iff_linked (fun b hb => (hg.sound hb).ordered_span) _ _ hx hy

end Grouping.Holds

/-- A region is merged if it has more than one axis. -/
theorem Resolution.mergedCount_eq (bs : List Block) :
    (ofBlocks bs).mergedCount = (ofBlocks bs).axes.countP fun axes => 2 ≤ axes.length := by
  rw [axes, List.countP_map, mergedCount, stats_ofBlocks]
  refine List.countP_congr fun g _ => ?_
  cases g <;> simp [Region.isMerged, Region.blocks, Cluster.blocks]

end SeriesTable
