import SeriesTable.Proofs.StableSort
import SeriesTable.Proofs.Page.Rows
import SeriesTable.Proofs.Column.Kinds

/-
  The page of a region. Its instants are those of the blocks, increasing, so every search for the
  row of a block's instant succeeds (`foldlM_mergeBlock_unifiedInstants`). At every instant a source
  has the value of the first block that knows one (`Joins`): one block's values after another are
  filled into the rows, and only what is missing is filled.
  There is a page exactly if the blocks' columns are uniform; otherwise the fault names two kinds of
  a source (`ofRegion_cases`).
-/

namespace SeriesTable.Page

/-! ## Instants -/

theorem mem_eraseReps_loop {as acc : List Int} {a t : Int} :
    t ∈ List.eraseRepsBy.loop (· == ·) a as acc ↔ t ∈ acc ∨ t = a ∨ t ∈ as := by
  induction as generalizing a acc with
  | nil => simp [List.eraseRepsBy.loop, or_comm]
  | cons b as ih =>
    rw [List.eraseRepsBy.loop]
    split
    · rename_i hab
      rw [ih, eq_of_beq hab, List.mem_cons]
      simp
    · rw [ih, List.mem_cons, List.mem_cons]
      simp only [or_assoc, or_left_comm]

theorem increasing_eraseReps_loop {as acc : List Int} {a : Int}
    (hs : (a :: as).Pairwise (· ≤ ·)) (hacc : Instant.Increasing (acc.reverse ++ [a])) :
    Instant.Increasing (List.eraseRepsBy.loop (· == ·) a as acc) := by
  induction as generalizing a acc with
  | nil => simpa [List.eraseRepsBy.loop] using hacc
  | cons b as ih =>
    obtain ⟨ha, hrest⟩ := List.pairwise_cons.mp hs
    rw [List.eraseRepsBy.loop]
    split
    · rename_i hab
      rw [← eq_of_beq hab] at hrest
      exact ih hrest hacc
    · rename_i hab
      have hne : a ≠ b := ne_of_beq_false hab
      have hle := ha b (List.mem_cons_self ..)
      have hbefore := (List.pairwise_append.mp hacc).2.2
      refine ih hrest ?_
      rw [List.reverse_cons]
      refine List.pairwise_append.mpr ⟨hacc, List.pairwise_singleton .., ?_⟩
      intro x hx y hy
      rw [List.mem_singleton.mp hy]
      rcases List.mem_append.mp hx with hx | hx
      · have := hbefore x hx a (List.mem_singleton_self a)
        omega
      · rw [List.mem_singleton.mp hx]
        omega

theorem mem_eraseReps {ts : List Int} {t : Int} : t ∈ ts.eraseReps ↔ t ∈ ts := by
  cases ts with
  | nil => exact Iff.rfl
  | cons a as =>
    rw [List.eraseReps, List.eraseRepsBy, mem_eraseReps_loop, List.mem_cons]
    simp

theorem increasing_eraseReps {ts : List Int} (h : ts.Pairwise (· ≤ ·)) :
    Instant.Increasing ts.eraseReps := by
  cases ts with
  | nil => exact .nil
  | cons a as => exact increasing_eraseReps_loop h (List.pairwise_singleton ..)

theorem mem_unifiedInstants {bs : List Block} {t : Int} :
    t ∈ unifiedInstants bs ↔ ∃ b ∈ bs, t ∈ b.instants := by
  rw [unifiedInstants, mem_eraseReps, List.mem_mergeSort, List.mem_flatMap]

theorem increasing_unifiedInstants (bs : List Block) : Instant.Increasing (unifiedInstants bs) :=
  increasing_eraseReps (mergeSort_ordered id (bs.flatMap Block.instants))

/-! ## Merged columns -/

/-- What one column of a block makes of the merged column of its source. -/
def mergeStep (unified : List Int) (b : Block) (source : String) (old : Option Column)
    (c : Column) : Except Fault Column :=
  let target := old.getD (Column.nulls c.kind unified.length)
  if target.kind ≠ c.kind then .error (.kindConflict source target.kind c.kind)
  else .ok (target.fillRows c.values (b.instants.filterMap (row? unified)))

/-- On an axis that has all of a block's instants, every search for a row succeeds. -/
theorem mergeBlock_eq {unified : List Int} (hi : Instant.Increasing unified) {b : Block}
    (hin : ∀ t ∈ b.instants, t ∈ unified) (merged : SortedMap String Column) :
    mergeBlock unified merged b =
      SortedMap.merge Block.columns (mergeStep unified) merged b := by
  have hstep : (fun merged (e : String × Column) =>
      mergeColumn unified.length (b.instants.filterMap (row? unified)) merged e.1 e.2) =
        SortedMap.update (mergeStep unified b) := by
    funext merged e
    simp only [mergeColumn, SortedMap.update, mergeStep]
    split <;> rfl
  rw [mergeBlock, mapM_rowOn hi hin, SortedMap.merge, ← hstep]
  rfl

theorem foldlM_mergeBlock {unified : List Int} (hi : Instant.Increasing unified)
    {bs : List Block} (hin : ∀ b ∈ bs, ∀ t ∈ b.instants, t ∈ unified)
    (merged : SortedMap String Column) :
    bs.foldlM (mergeBlock unified) merged =
      bs.foldlM (SortedMap.merge Block.columns (mergeStep unified)) merged := by
  induction bs generalizing merged with
  | nil => rfl
  | cons b bs ih =>
    rw [List.forall_mem_cons] at hin
    rw [List.foldlM_cons, List.foldlM_cons, mergeBlock_eq hi hin.1]
    exact congrArg _ (funext fun next => ih hin.2 next)

/-- No search for a row fails when blocks are merged onto the axis of all their instants. -/
theorem foldlM_mergeBlock_unifiedInstants (bs : List Block) (merged : SortedMap String Column) :
    bs.foldlM (mergeBlock (unifiedInstants bs)) merged =
      bs.foldlM (SortedMap.merge Block.columns (mergeStep (unifiedInstants bs))) merged :=
  foldlM_mergeBlock (increasing_unifiedInstants bs)
    (fun b hb _ ht => mem_unifiedInstants.mpr ⟨b, hb, ht⟩) merged

theorem keepsKinds_mergeStep (unified : List Int) :
    KeepsKinds (mergeStep unified) Column.kind where
  fresh b source c := by
    simp [mergeStep, Column.nulls]
  same b source y c hk := by
    simp [mergeStep, hk]
  refused b source y c hk := by
    simp [mergeStep, hk]

section MergeAt

variable {unified : List Int} {source : String} {old new : Option Column}

theorem mergeStep_ok {b : Block} {c d : Column} (hi : Instant.Increasing unified)
    (hin : ∀ t ∈ b.instants, t ∈ unified) (hold : ∀ c ∈ old, c.length = unified.length)
    (h : mergeStep unified b source old c = .ok d) :
    d.length = unified.length ∧ ∀ t, d.known? unified t =
      (old.bind fun c => c.known? unified t).or (c.known? b.instants t) := by
  have htarget : (old.getD (Column.nulls c.kind unified.length)).length = unified.length := by
    cases old with
    | none => simp
    | some c => exact hold c rfl
  have hknown : ∀ t, (old.getD (Column.nulls c.kind unified.length)).known? unified t =
      old.bind fun c => c.known? unified t := by
    intro t
    cases old with
    | none => exact Column.known?_nulls ..
    | some c => rfl
  rw [mergeStep] at h
  split at h
  · cases h
  · cases h
    refine ⟨(Column.length_fillRows ..).trans htarget, fun t => ?_⟩
    rw [← hknown]
    exact Column.known?_fillRows hi htarget hin c.values t

/-- Blocks merged one after another: at each instant the first value known stays. -/
theorem foldlM_mergeAt_ok {bs : List Block} (hi : Instant.Increasing unified)
    (hin : ∀ b ∈ bs, ∀ t ∈ b.instants, t ∈ unified)
    (hold : ∀ c ∈ old, c.length = unified.length)
    (h : bs.foldlM (SortedMap.mergeAt Block.columns (mergeStep unified) source) old = .ok new) :
    (∀ c ∈ new, c.length = unified.length) ∧ ∀ t, (new.bind fun c => c.known? unified t) =
      (old.bind fun c => c.known? unified t).or (bs.findSome? fun b => b.known? source t) := by
  induction bs generalizing old with
  | nil =>
    cases h
    exact ⟨hold, fun t => by simp⟩
  | cons b bs ih =>
    rw [List.forall_mem_cons] at hin
    rw [List.foldlM_cons] at h
    cases hm : SortedMap.mergeAt Block.columns (mergeStep unified) source old b with
    | error fault =>
      rw [hm] at h
      cases h
    | ok next =>
      rw [hm] at h
      have hstep : (∀ c ∈ next, c.length = unified.length) ∧
          ∀ t, (next.bind fun c => c.known? unified t) =
            (old.bind fun c => c.known? unified t).or (b.known? source t) := by
        rw [SortedMap.mergeAt] at hm
        simp only [Block.known?, Block.column?]
        cases hc : b.columns.find? source with
        | none =>
          rw [hc] at hm
          cases hm
          exact ⟨hold, fun t => by simp⟩
        | some c =>
          rw [hc] at hm
          obtain ⟨d, hd, rfl⟩ := SortedMap.rewritten_some_eq_ok hm
          obtain ⟨hlength, hknown⟩ := mergeStep_ok hi hin.1 hold hd
          exact ⟨by simpa using hlength, hknown⟩
      obtain ⟨hlength, hknown⟩ := ih hin.2 hstep.1 h
      refine ⟨hlength, fun t => ?_⟩
      rw [hknown, hstep.2, Option.or_assoc, List.findSome?_cons]
      cases b.known? source t <;> rfl

end MergeAt

/-! ## Pages of regions -/

/-- The page has the instants and the kinds of the blocks, and for each instant the first values
known. -/
structure Joins (p : Page) (bs : List Block) : Prop where
  mem_instants : ∀ t, t ∈ p.instants ↔ ∃ b ∈ bs, t ∈ b.instants
  declares : ∀ source kind, (p.column? source).map Column.kind = some kind ↔
    Declares (bs.map Block.columns) source kind
  known?_eq : ∀ source t, p.known? source t = bs.findSome? fun b => b.known? source t

theorem make_ok {instants : List Int} {columns : SortedMap String Column} (hn : instants ≠ [])
    (hi : Instant.Increasing instants)
    (hl : ∀ e ∈ columns.entries, e.2.length = instants.length) :
    make instants columns = .ok ⟨instants, columns, hn, hi, hl⟩ := by
  rw [make, dif_neg hn]
  split
  · rename_i hd
    rw [Instant.firstDescent?_eq_none_iff.mpr hi] at hd
    cases hd
  · split
    · rename_i e hf
      have hlength := List.find?_some hf
      rw [hl _ (List.mem_of_find?_eq_some hf)] at hlength
      simp at hlength
    · rfl

theorem ofBlock_ok {b : Block} (hb : b.Sound) : ∃ p, ofBlock b = .ok p ∧ p.Joins [b] := by
  have hl : ∀ e ∈ b.columns.entries, e.2.length = b.instants.length := by
    intro e he
    rw [hb.lengths e.1 e.2 (SortedMap.find?_eq_some_iff.mpr he)]
    exact (Axis.length_instants b.axis).symm
  refine ⟨_, make_ok hb.instants_ne_nil hb.increasing hl, ?_⟩
  constructor
  · simp
  · simp [Declares, column?]
  · intro source t
    rw [List.findSome?_singleton]
    rfl

theorem ofCluster_ok {c : Cluster} (hb : ∀ b ∈ c.blocks, b.Sound)
    {columns : SortedMap String Column}
    (h : c.blocks.foldlM (mergeBlock (unifiedInstants c.blocks)) ∅ = .ok columns) :
    ∃ p, ofCluster c = .ok p ∧ p.Joins c.blocks := by
  have hi := increasing_unifiedInstants c.blocks
  have hn : unifiedInstants c.blocks ≠ [] := by
    have hfirst : c.first ∈ c.blocks := List.mem_cons_self ..
    obtain ⟨t, ht⟩ := List.exists_mem_of_ne_nil _ (hb c.first hfirst).instants_ne_nil
    exact List.ne_nil_of_mem (mem_unifiedInstants.mpr ⟨c.first, hfirst, ht⟩)
  have hmerge := h
  rw [foldlM_mergeBlock_unifiedInstants] at hmerge
  have hcolumn : ∀ source, _ := fun source =>
    foldlM_mergeAt_ok hi (fun b hb t ht => mem_unifiedInstants.mpr ⟨b, hb, ht⟩) (by simp)
      (SortedMap.foldlM_merge_ok hmerge source)
  have hl : ∀ e ∈ columns.entries, e.2.length = (unifiedInstants c.blocks).length := fun e he =>
    (hcolumn e.1).1 e.2 (SortedMap.find?_eq_some_iff.mpr he)
  have hok : ofCluster c = make (unifiedInstants c.blocks) columns := by
    rw [ofCluster, h]
    rfl
  refine ⟨_, hok.trans (make_ok hn hi hl), ?_⟩
  constructor
  · exact fun t => mem_unifiedInstants
  · exact (keepsKinds_mergeStep _).declares_iff hmerge
  · intro source t
    have hknown := (hcolumn source).2 t
    rw [SortedMap.find?_empty, Option.bind_none, Option.none_or] at hknown
    exact hknown

/-- A region of sound blocks has its page, or the fault names two kinds of a source. -/
theorem ofRegion_cases (g : Region) (hb : ∀ b ∈ g.blocks, b.Sound) :
    (∃ p, ofRegion g = .ok p ∧ p.Joins g.blocks) ∨
      ∃ fault, ofRegion g = .error fault ∧ fault.IsConflict (g.blocks.map Block.columns) := by
  cases g with
  | lone b => exact .inl (ofBlock_ok (hb b (List.mem_singleton_self b)))
  | merged c =>
    cases h : c.blocks.foldlM (mergeBlock (unifiedInstants c.blocks)) ∅ with
    | ok columns => exact .inl (ofCluster_ok hb h)
    | error fault =>
      refine .inr ⟨fault, ?_, ?_⟩
      · rw [ofRegion, ofCluster, h]
        rfl
      · rw [foldlM_mergeBlock_unifiedInstants] at h
        exact (keepsKinds_mergeStep _).conflict h

end SeriesTable.Page
