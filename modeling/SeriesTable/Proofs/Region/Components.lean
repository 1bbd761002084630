import Mathlib.Algebra.GroupWithZero.Nat
import SeriesTable.Proofs.Span.Disjoint
import SeriesTable.Proofs.StableSort

/-
  Regions are the connected components of overlap in time. Two blocks are linked if a chain of
  blocks, each meeting the next, leads from one to the other. The sweep compares a block with the
  hull of the open region only; that is enough because the blocks come in start order: a block that
  meets the hull meets the member that ends last (`Pending.Sound.exists_meets`), and one that does
  not starts after all members have ended, as do all blocks after it.

  `sweep_components` is the invariant of the sweep, and its counters are the numbers of the regions
  it forms and of their blocks (`sweep_stats`, `stats_ofBlocks`). `resolution_components` says what
  a resolution of any blocks is.
-/

namespace SeriesTable

/-! ## Chains of blocks -/

/-- A chain of blocks of `bs`, each meeting the next, leads from one block to the other. -/
inductive Linked (bs : List Block) : Block → Block → Prop where
  | same {a : Block} (ha : a ∈ bs) : Linked bs a a
  | next {a b c : Block} (hab : Linked bs a b) (hc : c ∈ bs) (hbc : b.span.Meets c.span) :
      Linked bs a c

namespace Linked

variable {bs cs : List Block} {a b c : Block}

theorem mem_right (h : Linked bs a b) : b ∈ bs := by
  cases h with
  | same ha => exact ha
  | next _ hc _ => exact hc

theorem mono (hsub : ∀ x ∈ bs, x ∈ cs) (h : Linked bs a b) : Linked cs a b := by
  induction h with
  | same ha => exact .same (hsub _ ha)
  | next _ hc hbc ih => exact .next ih (hsub _ hc) hbc

theorem trans (hab : Linked bs a b) (hbc : Linked bs b c) : Linked bs a c := by
  induction hbc with
  | same _ => exact hab
  | next _ hd hcd ih => exact .next ih hd hcd

theorem of_meets (ha : a ∈ bs) (hb : b ∈ bs) (h : a.span.Meets b.span) : Linked bs a b :=
  .next (.same ha) hb h

theorem symm (h : Linked bs a b) : Linked bs b a := by
  induction h with
  | same ha => exact .same ha
  | next hab hc hbc ih => exact (of_meets hc hab.mem_right hbc.symm).trans ih

end Linked

/-! ## Spans of regions -/

namespace Region

@[simp] theorem blocks_ofBlocks (first : Block) (others : List Block) :
    (ofBlocks first others).blocks = first :: others := by
  cases others <;> rfl

theorem span_ofBlocks (first : Block) (others : List Block) :
    (ofBlocks first others).span = others.foldl (fun s b => s.hull b.span) first.span := by
  cases others <;> rfl

theorem leastCover_blocks (first : Block) (others : List Block) :
    (others.foldl (fun s b => s.hull b.span) first.span).LeastCover
      ((first :: others).map Block.span) := by
  rw [← List.foldl_map (f := Block.span) (g := Span.hull), List.map_cons]
  exact Span.leastCover_foldl_hull first.span (others.map Block.span)

/-- A region's span is the smallest one that covers its blocks. -/
theorem leastCover_span (g : Region) : g.span.LeastCover (g.blocks.map Block.span) := by
  cases g with
  | lone b => exact leastCover_blocks b []
  | merged c => exact leastCover_blocks c.first (c.second :: c.others)

theorem within_span {g : Region} {b : Block} (hb : b ∈ g.blocks) : b.span.Within g.span :=
  g.leastCover_span.1 _ (List.mem_map_of_mem hb)

theorem blocks_ne_nil (g : Region) : g.blocks ≠ [] := by
  cases g <;> simp [blocks, Cluster.blocks]

/-- A region starts no earlier than all its blocks do. -/
theorem le_start {g : Region} {t : Int} (h : ∀ b ∈ g.blocks, t ≤ b.start) : t ≤ g.span.start := by
  have hleast := g.leastCover_span.2 ⟨t, g.span.stop⟩ fun s hs => by
    obtain ⟨b, hb, rfl⟩ := List.mem_map.mp hs
    exact ⟨h b hb, (within_span hb).2⟩
  exact hleast.1

theorem ordered_span {g : Region} (h : ∀ b ∈ g.blocks, b.span.Ordered) : g.span.Ordered := by
  obtain ⟨b, hb⟩ := List.exists_mem_of_ne_nil _ g.blocks_ne_nil
  have hin := within_span hb
  have hord := h b hb
  unfold Span.Within at hin
  unfold Span.Ordered at *
  omega

@[simp] theorem isMerged_lone (b : Block) : (lone b).isMerged = false := rfl

@[simp] theorem isMerged_merged (c : Cluster) : (merged c).isMerged = true := rfl

@[simp] theorem blocks_lone (b : Block) : (lone b).blocks = [b] := rfl

@[simp] theorem blocks_merged (c : Cluster) : (merged c).blocks = c.blocks := rfl

theorem isMerged_eq_false_iff (g : Region) : g.isMerged = false ↔ g.blocks.length = 1 := by
  cases g <;> simp [isMerged, blocks, Cluster.blocks]

end Region

/-! ## The sweep -/

namespace Region.Pending

/-- The blocks of an open region. -/
def blocks (p : Pending) : List Block := p.first :: p.others.reverse

/-- The hull is that of the blocks, and the blocks are linked among themselves. -/
structure Sound (p : Pending) : Prop where
  hull_eq : p.hull = p.others.reverse.foldl (fun s b => s.hull b.span) p.first.span
  linked : ∀ a ∈ p.blocks, ∀ b ∈ p.blocks, Linked p.blocks a b

theorem blocks_single (b : Block) : (single b).blocks = [b] := rfl

theorem blocks_join (p : Pending) (b : Block) : (p.join b).blocks = p.blocks ++ [b] := by
  simp [blocks, join]

theorem blocks_close (p : Pending) : p.close.blocks = p.blocks := by
  simp [close, blocks]

theorem sound_single (b : Block) : (single b).Sound where
  hull_eq := rfl
  linked := by
    intro a ha c hc
    rw [blocks_single, List.mem_singleton] at ha hc
    subst ha hc
    exact .same (List.mem_singleton_self _)

theorem Sound.span_close {p : Pending} (h : p.Sound) : p.close.span = p.hull := by
  rw [close, span_ofBlocks, h.hull_eq]

theorem Sound.leastCover {p : Pending} (h : p.Sound) :
    p.hull.LeastCover (p.blocks.map Block.span) := by
  rw [← h.span_close, ← blocks_close]
  exact leastCover_span _

/-- A block that meets the hull and starts no earlier than any member meets a member. -/
theorem Sound.exists_meets {p : Pending} (h : p.Sound) {b : Block} (hb : b.span.Ordered)
    (hs : ∀ a ∈ p.blocks, a.start ≤ b.start) (hm : p.hull.Meets b.span) :
    ∃ a ∈ p.blocks, a.span.Meets b.span := by
  -- If all members ended before the block starts, a shorter hull would do.
  apply Classical.byContradiction
  intro hnone
  have hends : ∀ a ∈ p.blocks, a.span.stop ≤ b.start - 1 := by
    intro a ha
    apply Classical.byContradiction
    intro hlate
    refine hnone ⟨a, ha, ?_, ?_⟩
    · exact Int.le_trans (hs a ha) hb
    · show b.start ≤ a.span.stop
      omega
  have hleast := h.leastCover.2 ⟨p.hull.start, b.start - 1⟩ fun s hs => by
    obtain ⟨a, ha, rfl⟩ := List.mem_map.mp hs
    exact ⟨(h.leastCover.1 _ (List.mem_map_of_mem ha)).1, hends a ha⟩
  have hstop : p.hull.stop ≤ b.start - 1 := hleast.2
  have hmeets : b.start ≤ p.hull.stop := hm.2
  omega

/-- A block that starts no earlier than any member and does not meet the hull starts after it. -/
theorem Sound.stop_lt {p : Pending} (h : p.Sound) {b : Block} (hb : b.span.Ordered)
    (hs : ∀ a ∈ p.blocks, a.start ≤ b.start) (hm : ¬ p.hull.Meets b.span) :
    p.hull.stop < b.start := by
  have hfirst : p.first ∈ p.blocks := List.mem_cons_self ..
  have hhull : p.hull.start ≤ p.first.start := (h.leastCover.1 _ (List.mem_map_of_mem hfirst)).1
  apply Classical.byContradiction
  intro hlate
  refine hm ⟨?_, Int.not_lt.mp hlate⟩
  calc p.hull.start ≤ p.first.start := hhull
    _ ≤ b.start := hs p.first hfirst
    _ ≤ b.span.stop := hb

theorem Sound.join {p : Pending} (h : p.Sound) {b : Block} (hb : b.span.Ordered)
    (hs : ∀ a ∈ p.blocks, a.start ≤ b.start) (hm : p.hull.Meets b.span) : (p.join b).Sound where
  hull_eq := by
    simp [Pending.join, h.hull_eq, List.foldl_append]
  linked := by
    obtain ⟨m, hmem, hmeets⟩ := h.exists_meets hb hs hm
    rw [blocks_join]
    have hgrow : ∀ {a c}, Linked p.blocks a c → Linked (p.blocks ++ [b]) a c :=
      Linked.mono fun x hx => List.mem_append_left _ hx
    have hnew : ∀ a ∈ p.blocks, Linked (p.blocks ++ [b]) a b := by
      intro a ha
      exact .next (hgrow (h.linked a ha m hmem)) (by simp) hmeets
    intro a ha c hc
    rcases List.mem_append.mp ha with ha | ha <;> rcases List.mem_append.mp hc with hc | hc
    · exact hgrow (h.linked a ha c hc)
    · rw [List.mem_singleton.mp hc]
      exact hnew a ha
    · rw [List.mem_singleton.mp ha]
      exact (hnew c hc).symm
    · rw [List.mem_singleton.mp ha, List.mem_singleton.mp hc]
      exact .same (by simp)

end Region.Pending

/-- Regions that cut blocks into runs, linked inside and apart from one another. -/
structure Components (bs : List Block) (rs : List Region) : Prop where
  blocks : rs.flatMap Region.blocks = bs
  apart : rs.Pairwise fun g h => g.span.Before h.span
  linked : ∀ g ∈ rs, ∀ a ∈ g.blocks, ∀ b ∈ g.blocks, Linked g.blocks a b

namespace Components

variable {bs : List Block} {rs : List Region}

theorem mem_blocks (h : Components bs rs) {g : Region} (hg : g ∈ rs) {b : Block}
    (hb : b ∈ g.blocks) : b ∈ bs := by
  rw [← h.blocks]
  exact List.mem_flatMap.mpr ⟨g, hg, hb⟩

theorem le_start (h : Components bs rs) {t : Int} (ht : ∀ b ∈ bs, t ≤ b.start) {g : Region}
    (hg : g ∈ rs) : t ≤ g.span.start :=
  Region.le_start fun b hb => ht b (h.mem_blocks hg hb)

end Components

namespace Region

theorem sweep_components {p : Pending} {rest : List Block} (hp : p.Sound) (n : Stats)
    (hs : (p.blocks ++ rest).Pairwise fun a b => a.start ≤ b.start)
    (ho : ∀ b ∈ rest, b.span.Ordered) : Components (p.blocks ++ rest) (sweep p n rest).1 := by
  induction rest generalizing p n with
  | nil =>
    refine ⟨?_, List.pairwise_singleton .., ?_⟩
    · simp [sweep, Pending.blocks_close]
    · simpa [sweep, Pending.blocks_close] using hp.linked
  | cons b rest ih =>
    have hb := ho b (List.mem_cons_self ..)
    have hrest : ∀ c ∈ rest, c.span.Ordered := fun c hc => ho c (List.mem_cons_of_mem _ hc)
    have hbefore : ∀ a ∈ p.blocks, a.start ≤ b.start := fun a ha =>
      (List.pairwise_append.mp hs).2.2 a ha b (List.mem_cons_self ..)
    have hafter := List.pairwise_cons.mp (List.pairwise_append.mp hs).2.1
    unfold sweep
    by_cases hm : p.hull.Meets b.span
    · rw [if_pos hm]
      have hjoin := ih (hp.join hb hbefore hm) n (by simpa [Pending.blocks_join] using hs) hrest
      simpa [Pending.blocks_join] using hjoin
    · rw [if_neg hm]
      have hnext := ih (Pending.sound_single b) (n.close p.close)
        (by simpa [Pending.blocks_single] using hafter) hrest
      refine ⟨?_, ?_, ?_⟩
      · simp [Pending.blocks_close, hnext.blocks, Pending.blocks_single]
      · refine List.Pairwise.cons ?_ hnext.apart
        intro g hg
        -- All blocks of a later region start with `b` or after it, and `b` after the hull.
        have hstart : b.start ≤ g.span.start := by
          refine hnext.le_start (fun c hc => ?_) hg
          rcases List.mem_cons.mp hc with rfl | hc
          · exact Int.le_refl _
          · exact hafter.1 c hc
        rw [hp.span_close]
        exact Int.lt_of_lt_of_le (hp.stop_lt hb hbefore hm) hstart
      · intro g hg
        rcases List.mem_cons.mp hg with rfl | hg
        · simpa [Pending.blocks_close] using hp.linked
        · exact hnext.linked g hg

theorem ofOrdered_components {bs : List Block} (hs : bs.Pairwise fun a b => a.start ≤ b.start)
    (ho : ∀ b ∈ bs, b.span.Ordered) : Components bs (ofOrdered bs).1 := by
  cases bs with
  | nil => exact ⟨rfl, .nil, by simp [ofOrdered]⟩
  | cons b rest =>
    exact sweep_components (Pending.sound_single b) _ hs fun c hc =>
      ho c (List.mem_cons_of_mem _ hc)

/-! ## The counters -/

/-- The sweep counts each of its regions once. -/
theorem sweep_stats (p : Pending) (n : Stats) (rest : List Block) :
    (sweep p n rest).2 = (sweep p n rest).1.foldl Stats.close n := by
  induction rest generalizing p n with
  | nil => rfl
  | cons b rest ih =>
    unfold sweep
    split
    · exact ih (p.join b) n
    · exact ih (Pending.single b) (n.close p.close)

theorem ofOrdered_stats (bs : List Block) :
    (ofOrdered bs).2 = (ofOrdered bs).1.foldl Stats.close { received := bs.length } := by
  cases bs with
  | nil => rfl
  | cons b rest => exact sweep_stats ..

/-- Counting regions one by one adds up to the numbers of regions and of their blocks. -/
theorem foldl_close (rs : List Region) (n : Stats) :
    rs.foldl Stats.close n =
      { received := n.received
        lone := n.lone + rs.countP (!·.isMerged)
        merged := n.merged + rs.countP isMerged
        absorbed := n.absorbed + ((rs.filter isMerged).map (·.blocks.length)).sum } := by
  induction rs generalizing n with
  | nil => rfl
  | cons g rs ih =>
    rw [List.foldl_cons, ih]
    cases g with
    | lone b =>
      simp [Stats.close]
      omega
    | merged c =>
      simp [Stats.close, List.countP_cons, List.filter_cons]
      omega

/-- Every block is lone or went into a merged region. -/
theorem length_flatMap_blocks (rs : List Region) :
    (rs.flatMap blocks).length =
      rs.countP (!·.isMerged) + ((rs.filter isMerged).map (·.blocks.length)).sum := by
  induction rs with
  | nil => rfl
  | cons g rs ih =>
    rw [List.flatMap_cons, List.length_append, ih]
    cases g with
    | lone b =>
      simp
      omega
    | merged c =>
      simp [List.filter_cons]
      omega

end Region

namespace Components

variable {bs : List Block} {rs : List Region}

/-- Blocks of different regions do not meet. -/
theorem eq_of_meets (h : Components bs rs) {i j : Nat} (hi : i < rs.length) (hj : j < rs.length)
    {a b : Block} (ha : a ∈ rs[i].blocks) (hb : b ∈ rs[j].blocks) (hm : a.span.Meets b.span) :
    i = j := by
  have hapart := List.pairwise_iff_getElem.mp h.apart
  rcases Nat.lt_trichotomy i j with hlt | heq | hgt
  · have hbefore := (hapart i j hi hj hlt).mono (Region.within_span ha) (Region.within_span hb)
    exact absurd hm hbefore.not_meets
  · exact heq
  · have hbefore := (hapart j i hj hi hgt).mono (Region.within_span hb) (Region.within_span ha)
    exact absurd hm.symm hbefore.not_meets

/-- Two blocks are in one region exactly if they are linked. -/
theorem eq_iff_linked (h : Components bs rs) (ho : ∀ b ∈ bs, b.span.Ordered) {i j : Nat}
    (hi : i < rs.length) (hj : j < rs.length) {a b : Block} (ha : a ∈ rs[i].blocks)
    (hb : b ∈ rs[j].blocks) : i = j ↔ Linked bs a b := by
  constructor
  · rintro rfl
    exact (h.linked _ (List.getElem_mem hi) a ha b hb).mono fun x hx =>
      h.mem_blocks (List.getElem_mem hi) hx
  · intro hl
    induction hl generalizing j with
    | same hmem =>
      exact h.eq_of_meets hi hj ha hb ⟨ho _ hmem, ho _ hmem⟩
    | @next b c hab hc hbc ih =>
      have hmem := hab.mem_right
      rw [← h.blocks] at hmem
      obtain ⟨g, hg, hbg⟩ := List.mem_flatMap.mp hmem
      obtain ⟨k, hk, rfl⟩ := List.getElem_of_mem hg
      exact (ih hk hbg).trans (h.eq_of_meets hk hj hbg hb hbc)

theorem ordered_spans (h : Components bs rs) (ho : ∀ b ∈ bs, b.span.Ordered) :
    ∀ s ∈ rs.map Region.span, s.Ordered := by
  intro s hs
  obtain ⟨g, hg, rfl⟩ := List.mem_map.mp hs
  exact Region.ordered_span fun b hb => ho b (h.mem_blocks hg hb)

theorem checkDisjoint_ok (h : Components bs rs) (ho : ∀ b ∈ bs, b.span.Ordered) :
    Span.checkDisjoint (rs.map Region.span) = .ok () := by
  rw [Span.checkDisjoint_eq_ok_iff (h.ordered_spans ho), List.pairwise_map]
  exact h.apart

end Components

/-! ## Resolutions -/

namespace Resolution

theorem components_ofBlocks {bs : List Block} (ho : ∀ b ∈ bs, b.span.Ordered) :
    Components (bs.mergeSort fun a b => a.start ≤ b.start) (ofBlocks bs).regions :=
  Region.ofOrdered_components (mergeSort_ordered Block.start bs) fun b hb =>
    ho b (List.mem_mergeSort.mp hb)

theorem checked_ofBlocks {bs : List Block} (ho : ∀ b ∈ bs, b.span.Ordered) :
    (ofBlocks bs).checked = .ok (ofBlocks bs).regions := by
  unfold checked
  rw [(components_ofBlocks ho).checkDisjoint_ok fun b hb => ho b (List.mem_mergeSort.mp hb)]
  rfl

/-- The counters are the numbers of the blocks and of the regions formed. -/
theorem stats_ofBlocks (bs : List Block) :
    (ofBlocks bs).stats =
      { received := bs.length
        lone := (ofBlocks bs).regions.countP (!·.isMerged)
        merged := (ofBlocks bs).regions.countP Region.isMerged
        absorbed :=
          (((ofBlocks bs).regions.filter Region.isMerged).map (·.blocks.length)).sum } := by
  have hstats := Region.ofOrdered_stats (bs.mergeSort fun a b => a.start ≤ b.start)
  rw [Region.foldl_close, List.length_mergeSort] at hstats
  simp only [Nat.zero_add] at hstats
  exact hstats

/-- A resolution of blocks in any order. No check fails; the blocks are in start order, ties in
the order given; the regions are apart; two blocks are in one region exactly if they are linked;
every region's span is the smallest around its blocks, a region with one block is lone; and the
counts are those of the regions and their blocks. -/
theorem resolution_components (bs : List Block) (ho : ∀ b ∈ bs, b.span.Ordered) :
    (ofBlocks bs).checked = .ok (ofBlocks bs).regions ∧
      StablySorted Block.start bs ((ofBlocks bs).regions.flatMap Region.blocks) ∧
      (ofBlocks bs).regions.Pairwise (fun g h => g.span.stop < h.span.start) ∧
      (∀ i j, ∀ hi : i < (ofBlocks bs).regions.length, ∀ hj : j < (ofBlocks bs).regions.length,
        ∀ a ∈ (ofBlocks bs).regions[i].blocks, ∀ b ∈ (ofBlocks bs).regions[j].blocks,
          (i = j ↔ Linked bs a b)) ∧
      (∀ g ∈ (ofBlocks bs).regions, g.span.LeastCover (g.blocks.map Block.span) ∧
        (g.isMerged = false ↔ g.blocks.length = 1)) ∧
      (ofBlocks bs).blockCount = bs.length ∧
      (ofBlocks bs).blockCount = (ofBlocks bs).loneCount + (ofBlocks bs).absorbedCount ∧
      (ofBlocks bs).loneCount = (ofBlocks bs).regions.countP (·.blocks.length = 1) ∧
      (ofBlocks bs).mergedCount = (ofBlocks bs).regions.countP (·.blocks.length ≠ 1) := by
  have hc := components_ofBlocks ho
  have hmem : ∀ {b}, b ∈ bs.mergeSort (fun a b => a.start ≤ b.start) ↔ b ∈ bs :=
    List.mem_mergeSort
  have hstats := stats_ofBlocks bs
  refine ⟨checked_ofBlocks ho, ?_, hc.apart, ?_, ?_, congrArg Region.Stats.received hstats, ?_,
    ?_, ?_⟩
  · rw [hc.blocks]
    exact stablySorted_mergeSort Block.start bs
  · intro i j hi hj a ha b hb
    rw [hc.eq_iff_linked (fun b hb => ho b (hmem.mp hb)) hi hj ha hb]
    exact ⟨Linked.mono fun x => hmem.mp, Linked.mono fun x => hmem.mpr⟩
  · intro g _
    exact ⟨g.leastCover_span, g.isMerged_eq_false_iff⟩
  · have hlength := congrArg List.length hc.blocks
    rw [Region.length_flatMap_blocks, List.length_mergeSort] at hlength
    rw [blockCount, loneCount, absorbedCount, hstats]
    exact hlength.symm
  · rw [loneCount, hstats]
    refine List.countP_congr fun g _ => ?_
    simp [← g.isMerged_eq_false_iff]
  · rw [mergedCount, hstats]
    refine List.countP_congr fun g _ => ?_
    simp [← g.isMerged_eq_false_iff]

/-- A list of instants, and before it two lists that share an instant. -/
def touchingBlocks : List Block := [⟨.list [20, 25], ∅⟩, ⟨.list [0, 10], ∅⟩, ⟨.list [10, 15], ∅⟩]

theorem resolution_components_touching :
    (∀ b ∈ touchingBlocks, b.span.Ordered) ∧
      (ofBlocks touchingBlocks).checked = .ok (ofBlocks touchingBlocks).regions ∧
      (ofBlocks touchingBlocks).regions.Pairwise (fun g h => g.span.stop < h.span.start) ∧
      (ofBlocks touchingBlocks).loneCount + (ofBlocks touchingBlocks).absorbedCount = 3 := by
  have ho : ∀ b ∈ touchingBlocks, b.span.Ordered := by decide
  obtain ⟨hchecked, -, hapart, -, -, hcount, hsum, -⟩ := resolution_components touchingBlocks ho
  exact ⟨ho, hchecked, hapart, by rw [← hsum, hcount]; rfl⟩

example : (ofBlocks touchingBlocks).regions.map (fun g => (g.blocks.length, g.span)) =
    [(2, ⟨0, 15⟩), (1, ⟨20, 25⟩)] := by cbv

end Resolution

end SeriesTable
