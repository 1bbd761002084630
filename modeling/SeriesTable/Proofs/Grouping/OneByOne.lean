import Mathlib.Algebra.BigOperators.Group.List.Basic
import Mathlib.Algebra.GroupWithZero.Nat
import SeriesTable.Proofs.Grouping.Batch

/-
  A batch against its fragments one by one. `addEach` adds fragments in the order of their arrival
  and goes on when one is refused. A batch does the same axis by axis. What happens on one axis does
  not depend on the fragments of the others (`Tidy.foldl_add_eq`), and the axes of a batch share its
  fragments out (`perm_flatMap_ofAxis`), so both ways lead to the same blocks and the same counts
  (`addBatch_of_checked_eq`). The fault of the batch is that of the first fragment refused on the
  least axis (`addBatch_fault_cases`).
-/

namespace SeriesTable.Grouping

/-! ## Fragments one by one -/

/-- What became of fragments added one after another: the grouping, the fragments taken in, and
those refused, each with its fault. -/
structure Passage where
  grouping : Grouping
  taken : List Fragment
  refused : List (Fragment × Fault)

/-- The fragments added one after another, whichever of them are refused. -/
def addEach (g : Grouping) : List Fragment → Passage
  | [] => ⟨g, [], []⟩
  | f :: fs =>
    match g.add f with
    | .ok h =>
      let rest := h.addEach fs
      { rest with taken := f :: rest.taken }
    | .error fault =>
      let rest := g.addEach fs
      { rest with refused := (f, fault) :: rest.refused }

variable {g h : Grouping} {f : Fragment} {fs : List Fragment}

theorem addEach_of_ok (ha : g.add f = .ok h) :
    g.addEach (f :: fs) = { h.addEach fs with taken := f :: (h.addEach fs).taken } := by
  rw [addEach, ha]

theorem addEach_of_error {fault : Fault} (ha : g.add f = .error fault) :
    g.addEach (f :: fs) =
      { g.addEach fs with refused := (f, fault) :: (g.addEach fs).refused } := by
  rw [addEach, ha]

/-- The grouping with a checked fragment whose axis and source are new. -/
def withFragment (g : Grouping) (f : Fragment) : Grouping :=
  { g with
    blocks := g.placed f
    fragments := g.fragments + 1
    bytes := g.bytes + f.size }

/-- A checked fragment goes in, or what it repeats is there already. -/
theorem Tidy.add_cases (hg : g.Tidy) (hc : f.check = .ok ()) :
    ((g.column? f.axis f.source).isSome = true ∧
      g.add f = .error (.duplicateSource f.source f.axis.start)) ∨
    ((g.column? f.axis f.source).isSome = false ∧ g.add f = .ok (g.withFragment f)) := by
  have hadd := hg.add_eq hc
  split at hadd
  · exact .inl ⟨‹_›, hadd⟩
  · exact .inr ⟨Bool.not_eq_true _ ▸ ‹_›, hadd⟩

theorem Tidy.withFragment (hg : g.Tidy) (f : Fragment) : (g.withFragment f).Tidy := hg.placed rfl

/-- What holds for the passage through checked fragments: it holds for the empty one, and it is kept
when a fragment is refused and when one is taken in. -/
theorem Tidy.addEach_induction {P : Grouping → List Fragment → Passage → Prop}
    (nil : ∀ g : Grouping, g.Tidy → P g [] ⟨g, [], []⟩)
    (refused : ∀ (g : Grouping) (f : Fragment) (fs : List Fragment), g.Tidy →
      (g.column? f.axis f.source).isSome = true → P g fs (g.addEach fs) →
      P g (f :: fs) { g.addEach fs with
        refused := (f, .duplicateSource f.source f.axis.start) :: (g.addEach fs).refused })
    (taken : ∀ (g : Grouping) (f : Fragment) (fs : List Fragment), g.Tidy →
      (g.column? f.axis f.source).isSome = false →
      P (g.withFragment f) fs ((g.withFragment f).addEach fs) →
      P g (f :: fs) { (g.withFragment f).addEach fs with
        taken := f :: ((g.withFragment f).addEach fs).taken })
    (hg : g.Tidy) (hc : Checked fs) : P g fs (g.addEach fs) := by
  induction fs generalizing g with
  | nil => exact nil g hg
  | cons f fs ih =>
    obtain ⟨hf, hfs⟩ := List.forall_mem_cons.mp hc
    rcases hg.add_cases hf with ⟨hs, hadd⟩ | ⟨hs, hadd⟩
    · rw [addEach_of_error hadd]
      exact refused g f fs hg hs (ih hg hfs)
    · rw [addEach_of_ok hadd]
      exact taken g f fs hg hs (ih (hg.withFragment f) hfs)

theorem Tidy.addEach (hg : g.Tidy) (hc : Checked fs) : (g.addEach fs).grouping.Tidy := by
  refine hg.addEach_induction (P := fun _ _ p => p.grouping.Tidy) ?_ ?_ ?_ hc
  · exact fun g hg => hg
  · exact fun g f fs _ _ h => h
  · exact fun g f fs _ _ h => h

/-- The counts go up by what was taken in, and nothing else changes besides the blocks. -/
theorem Tidy.grouping_addEach (hg : g.Tidy) (hc : Checked fs) :
    (g.addEach fs).grouping = { g with
      blocks := (g.addEach fs).grouping.blocks
      fragments := g.fragments + (g.addEach fs).taken.length
      bytes := g.bytes + ((g.addEach fs).taken.map Fragment.size).sum } := by
  refine hg.addEach_induction (P := fun g _ p => p.grouping = { g with
      blocks := p.grouping.blocks
      fragments := g.fragments + p.taken.length
      bytes := g.bytes + (p.taken.map Fragment.size).sum }) ?_ ?_ ?_ hc
  · exact fun g _ => rfl
  · exact fun g f fs _ _ h => h
  · intro g f fs _ _ h
    refine h.trans ?_
    simp [Grouping.withFragment]
    omega

theorem Tidy.mem_of_taken (hg : g.Tidy) (hc : Checked fs) :
    ∀ f ∈ (g.addEach fs).taken, f ∈ fs := by
  refine hg.addEach_induction (P := fun _ fs p => ∀ f ∈ p.taken, f ∈ fs) ?_ ?_ ?_ hc
  · exact fun g _ => by simp
  · exact fun g d fs _ _ h f hf => List.mem_cons_of_mem _ (h f hf)
  · intro g d fs _ _ h f hf
    rcases List.mem_cons.mp hf with rfl | hf
    · exact List.mem_cons_self ..
    · exact List.mem_cons_of_mem _ (h f hf)

/-- Of checked fragments, those are refused that repeat an axis and a source. -/
theorem Tidy.of_mem_refused (hg : g.Tidy) (hc : Checked fs) :
    ∀ e ∈ (g.addEach fs).refused,
      e.1 ∈ fs ∧ e.2 = .duplicateSource e.1.source e.1.axis.start := by
  refine hg.addEach_induction (P := fun _ fs p => ∀ e ∈ p.refused,
    e.1 ∈ fs ∧ e.2 = .duplicateSource e.1.source e.1.axis.start) ?_ ?_ ?_ hc
  · exact fun g _ => by simp
  · intro g d fs _ _ h e he
    rcases List.mem_cons.mp he with rfl | he
    · exact ⟨List.mem_cons_self .., rfl⟩
    · exact ⟨List.mem_cons_of_mem _ (h e he).1, (h e he).2⟩
  · exact fun g d fs _ _ h e he => ⟨List.mem_cons_of_mem _ (h e he).1, (h e he).2⟩

/-! ## One axis -/

/-- What is refused on an axis first. -/
def firstRefused? (axis : Axis) (refused : List (Fragment × Fault)) : Option Fault :=
  (refused.find? fun e => e.1.axis = axis).map (·.2)

theorem firstRefused?_eq_none_iff {axis : Axis} {refused : List (Fragment × Fault)} :
    firstRefused? axis refused = none ↔ ∀ e ∈ refused, e.1.axis ≠ axis := by
  rw [firstRefused?, Option.map_eq_none_iff, List.find?_eq_none]
  simp only [decide_eq_true_eq, ne_eq]

theorem ofAxis_cons_self (f : Fragment) (fs : List Fragment) :
    ofAxis f.axis (f :: fs) = f :: ofAxis f.axis fs := by
  simp [ofAxis]

theorem ofAxis_cons_of_ne {axis : Axis} (ha : f.axis ≠ axis) (fs : List Fragment) :
    ofAxis axis (f :: fs) = ofAxis axis fs := by
  simp [ofAxis, ha]

/-- An axis takes in what it would take in among the fragments of all axes. -/
theorem Tidy.foldl_add_eq (hg : g.Tidy) (hc : Checked fs) (axis : Axis) :
    ∀ i : Intake, i.block = g.blockFor axis →
      (ofAxis axis fs).foldl Intake.add i =
        { block := (g.addEach fs).grouping.blockFor axis
          fragments := i.fragments + (ofAxis axis (g.addEach fs).taken).length
          bytes := i.bytes + ((ofAxis axis (g.addEach fs).taken).map Fragment.size).sum
          refusal := i.refusal.or (firstRefused? axis (g.addEach fs).refused) } := by
  induction fs generalizing g with
  | nil =>
    intro i hi
    simp [Grouping.addEach, ofAxis, firstRefused?, ← hi]
  | cons f fs ih =>
    intro i hi
    obtain ⟨hf, hfs⟩ := List.forall_mem_cons.mp hc
    by_cases ha : f.axis = axis
    · subst ha
      have hia : f.axis = i.block.axis := by rw [hi, hg.axis_blockFor]
      rw [ofAxis_cons_self, List.foldl_cons, Intake.add_of_check hf hia, hi, ← column?]
      rcases hg.add_cases hf with ⟨hs, hadd⟩ | ⟨hs, hadd⟩
      · rw [if_pos hs, ih hg hfs (i.refuse f) hi, addEach_of_error hadd]
        simp [Intake.refuse, firstRefused?, hi, Block.start, hg.axis_blockFor]
      · have hblock : (i.accept f).block = (g.withFragment f).blockFor f.axis := by
          rw [blockFor_placed (g := g) (f := f) rfl, if_pos rfl, Intake.accept, hi]
        rw [hs, if_neg Bool.false_ne_true, ih (hg.withFragment f) hfs (i.accept f) hblock,
          addEach_of_ok hadd, ofAxis_cons_self]
        simp [Intake.accept]
        omega
    · rw [ofAxis_cons_of_ne ha]
      rcases hg.add_cases hf with ⟨-, hadd⟩ | ⟨-, hadd⟩
      · rw [ih hg hfs i hi, addEach_of_error hadd]
        simp [firstRefused?, ha]
      · have hblock : i.block = (g.withFragment f).blockFor axis := by
          rw [blockFor_placed (g := g) (f := f) rfl, if_neg (Ne.symm ha), hi]
        rw [ih (hg.withFragment f) hfs i hblock, addEach_of_ok hadd, ofAxis_cons_of_ne ha]

theorem Tidy.taken_eq (hg : g.Tidy) (hc : Checked fs) (axis : Axis) :
    g.taken fs axis =
      { block := (g.addEach fs).grouping.blockFor axis
        fragments := (ofAxis axis (g.addEach fs).taken).length
        bytes := ((ofAxis axis (g.addEach fs).taken).map Fragment.size).sum
        refusal := firstRefused? axis (g.addEach fs).refused } := by
  have h := hg.foldl_add_eq hc axis ⟨g.blockFor axis, 0, 0, none⟩ rfl
  simpa [taken, intake] using h

/-! ## All axes -/

/-- Different axes share out the fragments that are on any of them. -/
theorem perm_flatMap_ofAxis {axes : List Axis} (hd : axes.Nodup) {ds : List Fragment}
    (hds : ∀ d ∈ ds, d.axis ∈ axes) : (axes.flatMap fun axis => ofAxis axis ds).Perm ds := by
  induction axes generalizing ds with
  | nil =>
    rw [List.eq_nil_iff_forall_not_mem.mpr fun d hd => List.not_mem_nil (hds d hd)]
    exact .refl _
  | cons axis axes ih =>
    obtain ⟨hnot, hrest⟩ := List.nodup_cons.mp hd
    have hothers : ∀ d ∈ ds.filter fun d => ¬ d.axis = axis, d.axis ∈ axes := by
      intro d hd
      rw [List.mem_filter, decide_eq_true_eq] at hd
      exact (List.mem_cons.mp (hds d hd.1)).resolve_left hd.2
    have hsame : (axes.flatMap fun a => ofAxis a ds) =
        axes.flatMap fun a => ofAxis a (ds.filter fun d => ¬ d.axis = axis) := by
      rw [List.flatMap_def, List.flatMap_def]
      refine congrArg List.flatten (List.map_congr_left fun a ha => ?_)
      rw [ofAxis, ofAxis, List.filter_filter]
      refine List.filter_congr fun d _ => ?_
      have hne : d.axis = a → d.axis ≠ axis := fun h heq => hnot (heq ▸ h ▸ ha)
      simpa using hne
    rw [List.flatMap_cons, hsame]
    refine ((ih hrest hothers).append_left _).trans ?_
    simpa [ofAxis] using List.filter_append_perm (fun d : Fragment => d.axis = axis) ds

theorem mem_keys_byAxis {axis : Axis} : axis ∈ (byAxis fs).keys ↔ ∃ f ∈ fs, f.axis = axis := by
  rw [SortedMap.mem_keys_iff]
  simp only [find?_byAxis]
  constructor
  · rintro ⟨group, hgroup⟩
    split at hgroup
    · cases hgroup
    · obtain ⟨f, hf⟩ := List.exists_mem_of_ne_nil _ ‹_›
      exact ⟨f, mem_ofAxis.mp hf⟩
  · rintro ⟨f, hf, ha⟩
    exact ⟨_, if_neg (List.ne_nil_of_mem (mem_ofAxis.mpr ⟨hf, ha⟩))⟩

theorem intakes_eq (g : Grouping) (fs : List Fragment) :
    g.intakes fs = (byAxis fs).keys.map (g.taken fs) := by
  rw [intakes, SortedMap.keys, List.map_map]
  refine List.map_congr_left fun e he => ?_
  rw [(mem_byAxis.mp he).2]
  rfl

/-- The counts go up by what the axes took in, and nothing else changes besides the blocks. -/
theorem foldl_settle_eq (is : List Intake) (g : Grouping) :
    is.foldl settle g = { g with
      blocks := (is.foldl settle g).blocks
      fragments := g.fragments + (is.map Intake.fragments).sum
      bytes := g.bytes + (is.map Intake.bytes).sum } := by
  induction is generalizing g with
  | nil => rfl
  | cons i is ih =>
    rw [List.foldl_cons, ih]
    simp only [settle, List.map_cons, List.sum_cons, Nat.add_assoc]

/-- What all axes count is what a passage takes in. -/
theorem sum_intakes (hg : g.Tidy) (hc : Checked fs) :
    ((g.intakes fs).map Intake.fragments).sum = (g.addEach fs).taken.length ∧
      ((g.intakes fs).map Intake.bytes).sum =
        ((g.addEach fs).taken.map Fragment.size).sum := by
  have hperm : ((byAxis fs).keys.flatMap fun axis => ofAxis axis (g.addEach fs).taken).Perm
      (g.addEach fs).taken :=
    perm_flatMap_ofAxis (byAxis fs).nodup_keys fun f hf =>
      mem_keys_byAxis.mpr ⟨f, hg.mem_of_taken hc f hf, rfl⟩
  rw [intakes_eq, List.map_map, List.map_map]
  constructor
  · rw [← hperm.length_eq, List.length_flatMap]
    congr 2
    funext axis
    simp [hg.taken_eq hc]
  · rw [← (hperm.map Fragment.size).sum_nat, List.map_flatMap, List.flatMap_def, List.sum_flatten,
      List.map_map]
    congr 2
    funext axis
    simp [hg.taken_eq hc]

/-- A checked batch leaves what its fragments leave one by one; only the batches that were
distributed are counted apart. -/
theorem addBatch_of_checked_eq (hg : g.Tidy) (hc : Checked fs) :
    (g.addBatch fs).1 = { (g.addEach fs).grouping with
      parallelBatches :=
        g.parallelBatches + (if distributes g.options fs.length then 1 else 0) } := by
  by_cases hn : fs = []
  · subst hn
    simp [addBatch, addEach, distributes]
  have hblocks : (g.addBatch fs).1.blocks = (g.addEach fs).grouping.blocks := by
    refine blocks_eq_of_column? (hg.addBatch fs) (hg.addEach hc) fun axis source => ?_
    rw [column?, blockFor_addBatch hg hc, hg.taken_eq hc, column?]
  obtain ⟨hfragments, hbytes⟩ := sum_intakes hg hc
  rw [addBatch_of_checked hn hc] at hblocks ⊢
  dsimp only at hblocks ⊢
  rw [foldl_settle_eq, hblocks, hfragments, hbytes, hg.grouping_addEach hc]

theorem addBatch_fault_eq (hg : g.Tidy) (hc : Checked fs) :
    (g.addBatch fs).2 =
      (byAxis fs).keys.findSome? fun axis => firstRefused? axis (g.addEach fs).refused := by
  by_cases hn : fs = []
  · subst hn
    rfl
  have hrefusals : (Intake.refusal ∘ g.taken fs) = fun axis =>
      firstRefused? axis (g.addEach fs).refused := by
    funext axis
    rw [Function.comp_apply, hg.taken_eq hc]
  rw [addBatch_of_checked hn hc, intakes_eq, ← hrefusals]
  exact List.findSome?_map

/-! ## The fault of a batch -/

/-- Of the refused fragments, the first one on the least axis. -/
def FirstOnLeastAxis (e : Fragment × Fault) (refused : List (Fragment × Fault)) : Prop :=
  ∃ before after, refused = before ++ e :: after ∧
    (∀ d ∈ before, compare e.1.axis d.1.axis = .lt) ∧
    ∀ d ∈ after, compare e.1.axis d.1.axis ≠ .gt

/-- Going through the axes in their order, the first refusal found is the first on the least
axis. -/
theorem findSome?_firstRefused? {axes : List Axis}
    (hs : axes.Pairwise fun a b => compare a b = .lt) {refused : List (Fragment × Fault)}
    (hr : ∀ e ∈ refused, e.1.axis ∈ axes) (hne : refused ≠ []) :
    ∃ e, FirstOnLeastAxis e refused ∧
      axes.findSome? (fun axis => firstRefused? axis refused) = some e.2 := by
  cases hfound : axes.findSome? fun axis => firstRefused? axis refused with
  | none =>
    obtain ⟨d, hd⟩ := List.exists_mem_of_ne_nil _ hne
    have hnone := List.findSome?_eq_none_iff.mp hfound _ (hr d hd)
    exact absurd rfl (firstRefused?_eq_none_iff.mp hnone d hd)
  | some fault =>
    obtain ⟨less, axis, greater, haxes, hfirst, hnone⟩ := List.findSome?_eq_some_iff.mp hfound
    obtain ⟨e, he, rfl⟩ := Option.map_eq_some_iff.mp hfirst
    obtain ⟨ha, before, after, hrefused, hbefore⟩ := List.find?_eq_some_iff_append.mp he
    have ha : e.1.axis = axis := by simpa using ha
    rw [haxes, List.pairwise_append] at hs
    -- No refused fragment is on an axis that was passed without a refusal.
    have hleast : ∀ d ∈ refused, d.1.axis = axis ∨ compare axis d.1.axis = .lt := by
      intro d hd
      have hmem := hr d hd
      rw [haxes, List.mem_append, List.mem_cons] at hmem
      rcases hmem with hless | heq | hgreater
      · exact absurd rfl (firstRefused?_eq_none_iff.mp (hnone _ hless) d hd)
      · exact .inl heq
      · exact .inr (List.rel_of_pairwise_cons hs.2.1 hgreater)
    refine ⟨e, ⟨before, after, hrefused, fun d hd => ?_, fun d hd => ?_⟩, rfl⟩
    · have hd' : d ∈ refused := hrefused ▸ List.mem_append_left _ hd
      have hne : d.1.axis ≠ axis := by simpa using hbefore d hd
      rw [ha]
      exact (hleast d hd').resolve_left hne
    · have hd' : d ∈ refused := hrefused ▸ List.mem_append_right _ (List.mem_cons_of_mem _ hd)
      rcases hleast d hd' with heq | hlt
      · simp [ha, heq]
      · rw [ha, hlt]
        decide

/-- A checked batch without refusals has no fault; otherwise its fault is the one of the first
refused fragment on the least axis. -/
theorem addBatch_fault_cases (hg : g.Tidy) (hc : Checked fs) :
    ((g.addEach fs).refused = [] ∧ (g.addBatch fs).2 = none) ∨
      ∃ f, FirstOnLeastAxis (f, .duplicateSource f.source f.axis.start) (g.addEach fs).refused ∧
        (g.addBatch fs).2 = some (.duplicateSource f.source f.axis.start) := by
  have hmem := hg.of_mem_refused hc
  rw [addBatch_fault_eq hg hc]
  by_cases hne : (g.addEach fs).refused = []
  · refine .inl ⟨hne, ?_⟩
    rw [hne, List.findSome?_eq_none_iff]
    exact fun _ _ => rfl
  · obtain ⟨⟨f, fault⟩, hfirst, hfound⟩ := findSome?_firstRefused? (byAxis fs).sorted_keys
      (fun e he => mem_keys_byAxis.mpr ⟨e.1, (hmem e he).1, rfl⟩) hne
    have hin : (f, fault) ∈ (g.addEach fs).refused := by
      obtain ⟨before, after, heq, -⟩ := hfirst
      rw [heq]
      exact List.mem_append_right _ (List.mem_cons_self ..)
    obtain rfl : fault = .duplicateSource f.source f.axis.start := (hmem _ hin).2
    exact .inr ⟨f, hfirst, hfound⟩

/-! ## Options -/

theorem foldl_settle_with (is : List Intake) (g : Grouping) (o : Options) (n : Nat) :
    is.foldl settle { g with options := o, parallelBatches := n } =
      { is.foldl settle g with options := o, parallelBatches := n } := by
  induction is generalizing g with
  | nil => rfl
  | cons i is ih => exact ih (g.settle i)

/-- Other options change nothing but the count of the batches that were distributed. -/
theorem addBatch_with (g : Grouping) (fs : List Fragment) (o : Options) :
    ∃ n, { g with options := o }.addBatch fs =
      ({ (g.addBatch fs).1 with options := o, parallelBatches := n }, (g.addBatch fs).2) := by
  unfold addBatch
  by_cases hn : fs.isEmpty
  · exact ⟨g.parallelBatches, by simp [hn]⟩
  rw [if_neg hn, if_neg hn]
  cases firstFault? fs with
  | some fault => exact ⟨g.parallelBatches, rfl⟩
  | none =>
    refine ⟨g.parallelBatches + (if distributes o fs.length then 1 else 0), ?_⟩
    have hsettled := foldl_settle_with
      ((byAxis fs).entries.map fun e => intake (g.blockFor e.1) e.2)
      { g with parallelBatches :=
          g.parallelBatches + (if distributes g.options fs.length then 1 else 0) } o
      (g.parallelBatches + (if distributes o fs.length then 1 else 0))
    exact Prod.ext hsettled rfl

end SeriesTable.Grouping
