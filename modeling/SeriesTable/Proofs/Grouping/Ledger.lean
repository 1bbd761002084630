import Mathlib.Data.List.Nodup
import SeriesTable.Proofs.Grouping.Blocks
import SeriesTable.Proofs.Grouping.OneByOne

/-
  The accounts of a grouping. A ledger follows a grouping from its opening on, through deliveries,
  handings over and resets, and notes what was handed over and which fragments were accepted since
  the last reset. It is `Balanced` if the columns held and those handed over are exactly the
  accepted fragments, the counts are theirs, and every block is well formed and held in order.

  What is held at a time are the fragments accepted since the blocks were last handed over, so an
  axis and a source that were handed over may come again. The induction keeps these fragments apart
  from the earlier ones (`Follows`).

  Main statement: `run_balanced`, for every run of operations, whether or not they succeed.
-/

namespace SeriesTable

/-! ## Well-formed blocks -/

namespace Block

/-- The block is sound, has a column, and every column has a name, a supported kind, and values of
that kind. -/
structure WellFormed (b : Block) : Prop extends b.Sound where
  inhabited : 0 < b.columns.size
  columns : ∀ source c, b.column? source = some c →
    source ≠ "" ∧ c.kind.Supported ∧ ∀ v ∈ c.values, v.Fits c.kind

/-- The columns of the block with its axis and their sources. -/
def filled (b : Block) : List (Axis × String × Column) := b.columns.entries.map (Prod.mk b.axis)

theorem mem_filled {b : Block} {axis : Axis} {source : String} {c : Column} :
    (axis, source, c) ∈ b.filled ↔ b.axis = axis ∧ b.column? source = some c := by
  rw [filled, column?, SortedMap.find?_eq_some_iff, List.mem_map]
  constructor
  · rintro ⟨e, he, heq⟩
    cases heq
    exact ⟨rfl, he⟩
  · rintro ⟨rfl, he⟩
    exact ⟨_, he, rfl⟩

theorem nodup_filled (b : Block) : b.filled.Nodup := by
  have hentries : b.columns.entries.Nodup := List.Nodup.of_map Prod.fst b.columns.nodup_keys
  exact hentries.map fun _ _ heq => (Prod.mk.inj heq).2

end Block

/-- The fragment as the column that it fills. -/
def Fragment.filled (f : Fragment) : Axis × String × Column := (f.axis, f.source, f.column)

namespace Grouping

variable {g h : Grouping} {fs ds : List Fragment}

namespace Holds

theorem of_blocks (hg : g.Holds fs) (hb : h.blocks = g.blocks) : h.Holds fs where
  tidy := by
    constructor
    · rw [hb]
      exact hg.tidy.axis_eq
    · rw [hb]
      exact hg.tidy.inhabited
  compatible := hg.compatible
  column?_iff axis source c := by
    rw [← hg.column?_iff, column?, column?, blockFor, blockFor, hb]

theorem wellFormed (hg : g.Holds fs) {b : Block} (hb : b ∈ g.list) : b.WellFormed where
  toSound := hg.sound hb
  inhabited := by
    have hinhabited := hg.tidy.inhabited _ b (hg.tidy.mem_list_iff.mp hb)
    exact List.length_pos_iff.mpr (List.isEmpty_eq_false_iff.mp hinhabited)
  columns source c hc := by
    obtain ⟨f, hf, -, rfl, rfl⟩ := (hg.column?_of_mem_list hb).mp hc
    obtain ⟨hname, hkind, -, -, -, hfits⟩ := Fragment.check_eq_ok_iff.mp (hg.compatible.1 f hf)
    exact ⟨hname, hkind, hfits⟩

/-- The columns held are the fragments, each once. -/
theorem filled_perm (hg : g.Holds fs) :
    (g.list.flatMap Block.filled).Perm (fs.map Fragment.filled) := by
  have hcolumns : (g.list.flatMap Block.filled).Nodup := by
    refine List.nodup_flatMap.mpr ⟨fun b _ => b.nodup_filled, hg.tidy.ordered_list.imp ?_⟩
    intro a b hlt ⟨axis, source, c⟩ ha hb
    obtain ⟨rfl, -⟩ := Block.mem_filled.mp ha
    rw [(Block.mem_filled.mp hb).1] at hlt
    simp at hlt
  have hfragments : (fs.map Fragment.filled).Nodup := by
    refine List.pairwise_map.mpr (hg.compatible.2.imp ?_)
    intro f d hne heq
    simp only [Fragment.filled, Prod.mk.injEq] at heq
    exact hne ⟨heq.1, heq.2.1⟩
  rw [List.perm_ext_iff_of_nodup hcolumns hfragments]
  rintro ⟨axis, source, c⟩
  rw [List.mem_flatMap, List.mem_map]
  constructor
  · rintro ⟨b, hb, hfilled⟩
    obtain ⟨rfl, hc⟩ := Block.mem_filled.mp hfilled
    obtain ⟨f, hf, ha, rfl, rfl⟩ := (hg.column?_of_mem_list hb).mp hc
    exact ⟨f, hf, by rw [Fragment.filled, ha]⟩
  · rintro ⟨f, hf, heq⟩
    cases heq
    obtain ⟨b, hb, ha, hc⟩ := hg.exists_block hf
    exact ⟨b, hb, Block.mem_filled.mpr ⟨ha, hc⟩⟩

theorem addEach (hg : g.Holds fs) (ds : List Fragment) :
    (g.addEach ds).grouping.Holds (fs ++ (g.addEach ds).taken) := by
  induction ds generalizing g fs with
  | nil => rwa [Grouping.addEach, List.append_nil]
  | cons f ds ih =>
    have hadd := hg.add f
    split at hadd
    · obtain ⟨h, hok, hholds⟩ := hadd
      rw [addEach_of_ok hok, List.append_cons]
      exact ih hholds
    · obtain ⟨fault, herror⟩ := hadd
      rw [addEach_of_error herror]
      exact ih hg

end Holds

/-! ## Deliveries -/

/-- The grouping after a delivery, with or without a fault. -/
def after (g : Grouping) : Delivery → Grouping
  | .single f =>
    match g.add f with
    | .ok h => h
    | .error _ => g
  | .batch fs => (g.addBatch fs).1

/-- The fragments that a delivery puts in: none if one of them fails its check, and else those
that are not refused one after another. -/
def accepted (g : Grouping) (d : Delivery) : List Fragment :=
  if Checked d.fragments then (g.addEach d.fragments).taken else []

theorem after_single (g : Grouping) (f : Fragment) :
    g.after (.single f) = (g.addEach [f]).grouping := by
  rw [after, addEach]
  cases g.add f <;> rfl

theorem after_of_checked (hg : g.Tidy) {d : Delivery} (hc : Checked d.fragments) :
    ∃ n, g.after d = { (g.addEach d.fragments).grouping with parallelBatches := n } := by
  cases d with
  | single f => exact ⟨_, after_single g f⟩
  | batch fs => exact ⟨_, addBatch_of_checked_eq hg hc⟩

theorem after_of_not_checked {d : Delivery} (hc : ¬ Checked d.fragments) : g.after d = g := by
  cases d with
  | single f =>
    cases hf : f.check with
    | ok _ => exact absurd (by simpa [Checked, Delivery.fragments] using hf) hc
    | error fault => rw [after, add_eq_error_of_check hf]
  | batch fs =>
    obtain ⟨-, -, -, fault, -, -, -, heq⟩ := addBatch_of_not_checked (g := g) hc
    exact congrArg Prod.fst heq

/-- A delivery puts its accepted fragments in and counts them. -/
theorem Holds.after (hg : g.Holds fs) (d : Delivery) :
    (g.after d).Holds (fs ++ g.accepted d) ∧
    (g.after d).fragments = g.fragments + (g.accepted d).length ∧
    (g.after d).bytes = g.bytes + ((g.accepted d).map Fragment.size).sum := by
  by_cases hc : Checked d.fragments
  case neg =>
    rw [after_of_not_checked hc, accepted, if_neg hc, List.append_nil]
    exact ⟨hg, rfl, rfl⟩
  obtain ⟨n, hafter⟩ := after_of_checked hg.tidy hc
  have hcounts := hg.tidy.grouping_addEach hc
  rw [hafter, accepted, if_pos hc]
  refine ⟨(hg.addEach d.fragments).of_blocks rfl, ?_, ?_⟩
  · exact congrArg Grouping.fragments hcounts
  · exact congrArg Grouping.bytes hcounts

/-! ## Ledgers -/

/-- What can be done to a grouping. -/
inductive Operation where
  | deliver (d : Delivery)
  | take
  | reset
  deriving DecidableEq, Repr

/-- A grouping with the blocks handed over and the fragments accepted since the last reset. -/
structure Ledger where
  grouping : Grouping
  handed : List Block
  accepted : List Fragment

namespace Ledger

/-- The ledger before the first operation. -/
def opened (o : Options) : Ledger := ⟨empty o, [], []⟩

/-- The ledger after one more operation. -/
def perform (l : Ledger) : Operation → Ledger
  | .deliver d =>
    { l with grouping := l.grouping.after d, accepted := l.accepted ++ l.grouping.accepted d }
  | .take => { l with grouping := l.grouping.take.2, handed := l.handed ++ l.grouping.take.1 }
  | .reset => ⟨l.grouping.reset, [], []⟩

/-- The ledger after some operations. -/
def run (l : Ledger) (ops : List Operation) : Ledger := ops.foldl perform l

/-- The blocks since the last reset: those handed over and those held. -/
def blocks (l : Ledger) : List Block := l.handed ++ l.grouping.list

/-- The accounts add up. -/
structure Balanced (l : Ledger) : Prop where
  axis_eq : ∀ axis b, l.grouping.blocks.find? axis = some b → b.axis = axis
  wellFormed : ∀ b ∈ l.blocks, b.WellFormed
  ordered : l.grouping.list.Pairwise fun a b => compare a.axis b.axis = .lt
  nodup : (l.grouping.list.map Block.axis).Nodup
  sorted : l.grouping.list.Pairwise fun a b => a.start ≤ b.start
  filled : (l.blocks.flatMap Block.filled).Perm (l.accepted.map Fragment.filled)
  fragments : l.grouping.fragments = (l.blocks.map fun b => b.columns.size).sum
  bytes : l.grouping.bytes = (l.accepted.map Fragment.size).sum

/-- The blocks handed over hold the `earlier` accepted fragments, and the grouping the `current`
ones. -/
structure Follows (l : Ledger) (earlier current : List Fragment) : Prop where
  accepted : l.accepted = earlier ++ current
  holds : l.grouping.Holds current
  wellFormed : ∀ b ∈ l.handed, b.WellFormed
  filled : (l.handed.flatMap Block.filled).Perm (earlier.map Fragment.filled)
  fragments : l.grouping.fragments = l.accepted.length
  bytes : l.grouping.bytes = (l.accepted.map Fragment.size).sum

variable {l : Ledger} {earlier current : List Fragment}

theorem follows_opened (o : Options) : (opened o).Follows [] [] where
  accepted := rfl
  holds := holds_empty o
  wellFormed := by simp [opened]
  filled := .refl _
  fragments := rfl
  bytes := rfl

theorem Follows.deliver (h : l.Follows earlier current) (d : Delivery) :
    (l.perform (.deliver d)).Follows earlier (current ++ l.grouping.accepted d) := by
  obtain ⟨hholds, hfragments, hbytes⟩ := h.holds.after d
  refine ⟨?_, hholds, h.wellFormed, h.filled, ?_, ?_⟩
  · show l.accepted ++ l.grouping.accepted d = _
    rw [h.accepted, List.append_assoc]
  · show (l.grouping.after d).fragments = (l.accepted ++ l.grouping.accepted d).length
    rw [hfragments, h.fragments, List.length_append]
  · show (l.grouping.after d).bytes = ((l.accepted ++ l.grouping.accepted d).map _).sum
    rw [hbytes, h.bytes, List.map_append, List.sum_append]

theorem Follows.take (h : l.Follows earlier current) :
    (l.perform .take).Follows (earlier ++ current) [] where
  accepted := h.accepted.trans (List.append_nil _).symm
  holds := (holds_empty l.grouping.options).of_blocks rfl
  wellFormed b hb := by
    rcases List.mem_append.mp hb with hb | hb
    · exact h.wellFormed b hb
    · exact h.holds.wellFormed hb
  filled := by
    show ((l.handed ++ l.grouping.list).flatMap Block.filled).Perm _
    rw [List.flatMap_append, List.map_append]
    exact h.filled.append h.holds.filled_perm
  fragments := h.fragments
  bytes := h.bytes

theorem Follows.reset (_ : l.Follows earlier current) : (l.perform .reset).Follows [] [] :=
  follows_opened l.grouping.options

theorem Follows.perform (h : l.Follows earlier current) (op : Operation) :
    ∃ earlier current, (l.perform op).Follows earlier current := by
  cases op with
  | deliver d => exact ⟨_, _, h.deliver d⟩
  | take => exact ⟨_, _, h.take⟩
  | reset => exact ⟨_, _, h.reset⟩

theorem Follows.run (h : l.Follows earlier current) (ops : List Operation) :
    ∃ earlier current, (l.run ops).Follows earlier current := by
  induction ops generalizing l earlier current with
  | nil => exact ⟨earlier, current, h⟩
  | cons op ops ih =>
    obtain ⟨_, _, hop⟩ := h.perform op
    exact ih hop

theorem Follows.balanced (h : l.Follows earlier current) : l.Balanced := by
  have hfilled : (l.blocks.flatMap Block.filled).Perm (l.accepted.map Fragment.filled) := by
    rw [blocks, List.flatMap_append, h.accepted, List.map_append]
    exact h.filled.append h.holds.filled_perm
  refine
    { axis_eq := h.holds.tidy.axis_eq
      wellFormed := ?wellFormed
      ordered := h.holds.tidy.ordered_list
      nodup := h.holds.tidy.nodup_axes
      sorted := h.holds.tidy.sorted_list
      filled := hfilled
      fragments := ?fragments
      bytes := h.bytes }
  case wellFormed =>
    exact List.forall_mem_append.mpr ⟨h.wellFormed, fun b hb => h.holds.wellFormed hb⟩
  case fragments =>
    have hlength := hfilled.length_eq
    rw [List.length_map, ← h.fragments, List.length_flatMap] at hlength
    rw [← hlength]
    simp only [Block.filled, List.length_map, SortedMap.size]

/-- Whatever is done to a new grouping, with or without faults, its accounts add up. -/
theorem run_balanced (o : Options) (ops : List Operation) : ((opened o).run ops).Balanced := by
  obtain ⟨_, _, h⟩ := (follows_opened o).run ops
  exact h.balanced

/-- What was handed over may come again, once, and is counted again. -/
example :
    let f : Fragment := ⟨"load", .int, [.int 1], .list [0], 4⟩
    ((opened {}).run [.deliver (.single f), .take, .deliver (.batch [f, f])]).accepted =
      [f, f] := by
  decide

end Ledger

end Grouping

end SeriesTable
