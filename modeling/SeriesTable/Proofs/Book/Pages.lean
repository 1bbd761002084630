import Mathlib.Data.List.Forall2
import SeriesTable.Book
import SeriesTable.Proofs.Page.Merge
import SeriesTable.Proofs.Region.Components

/-
  Books of pages and of regions. Padding adds columns that know nothing (`known?_padPage`), so a
  book knows at each instant what its pages do. Regions that are apart have pages that are apart:
  `ofRegions_cases` says that their book shows the blocks of all regions (`Shows`), or that the
  fault names two kinds of a source.
-/

namespace SeriesTable

/-! ## Padding -/

namespace Page

theorem column?_pad (p : Page) (name : String) (kind : Kind) (source : String) :
    (p.pad name kind).column? source =
      (p.column? source).or
        (if source = name then some (Column.nulls kind p.rowCount) else none) := by
  rw [pad]
  split
  · rename_i h
    obtain ⟨c, hc⟩ := SortedMap.contains_eq_true_iff.mp h
    by_cases hs : source = name
    · subst hs
      simp [column?, hc]
    · simp [hs]
  · rename_i h
    have hnone : p.column? name = none :=
      SortedMap.contains_eq_false_iff.mp (Bool.not_eq_true _ ▸ h)
    show (p.columns.insert name _).find? source = _
    rw [SortedMap.find?_insert]
    by_cases hs : source = name
    · subst hs
      simp [hnone]
    · simp [hs, column?]

theorem instants_pad (p : Page) (name : String) (kind : Kind) :
    (p.pad name kind).instants = p.instants := by
  rw [pad]
  split <;> rfl

theorem start_mem (p : Page) : p.start ∈ p.instants := by
  obtain ⟨t, rest, h⟩ := List.exists_cons_of_ne_nil p.nonempty
  simp [start, h]

theorem stop_mem (p : Page) : p.stop ∈ p.instants := by
  rw [stop, List.getLastD_eq_getLast?, List.getLast?_eq_getLast_of_ne_nil p.nonempty]
  exact List.getLast_mem p.nonempty

theorem mem_span (p : Page) {t : Int} (h : t ∈ p.instants) : t ∈ p.span :=
  ⟨p.increasing.headD_le h, p.increasing.le_getLastD h⟩

theorem ordered_span (p : Page) : p.span.Ordered := by
  have := p.mem_span p.start_mem
  rw [Span.mem_iff] at this
  unfold Span.Ordered
  omega

end Page

namespace Book

theorem instants_foldl_pad (es : List (String × Kind)) (p : Page) :
    (es.foldl (fun p e => p.pad e.1 e.2) p).instants = p.instants := by
  induction es generalizing p with
  | nil => rfl
  | cons e es ih => rw [List.foldl_cons, ih, Page.instants_pad]

theorem column?_foldl_pad (es : List (String × Kind)) (p : Page) (source : String) :
    (es.foldl (fun p e => p.pad e.1 e.2) p).column? source =
      (p.column? source).or
        ((SortedMap.findIn source es).map fun kind => Column.nulls kind p.rowCount) := by
  induction es generalizing p with
  | nil => simp [SortedMap.findIn]
  | cons e es ih =>
    have hrows : (p.pad e.1 e.2).rowCount = p.rowCount := by
      rw [Page.rowCount, Page.instants_pad, Page.rowCount]
    rw [List.foldl_cons, ih, hrows, Page.column?_pad, Option.or_assoc, SortedMap.findIn]
    simp only [Std.LawfulEqOrd.compare_eq_iff_eq]
    split <;> rfl

@[simp] theorem instants_padPage (kinds : SortedMap String Kind) (p : Page) :
    (padPage kinds p).instants = p.instants :=
  instants_foldl_pad ..

theorem column?_padPage (kinds : SortedMap String Kind) (p : Page) (source : String) :
    (padPage kinds p).column? source =
      (p.column? source).or
        ((kinds.find? source).map fun kind => Column.nulls kind p.rowCount) :=
  column?_foldl_pad ..

theorem known?_padPage (kinds : SortedMap String Kind) (p : Page) (source : String) (t : Int) :
    (padPage kinds p).known? source t = p.known? source t := by
  rw [Page.known?, Page.known?, column?_padPage, instants_padPage]
  cases p.column? source with
  | some c => rfl
  | none =>
    cases kinds.find? source with
    | none => rfl
    | some kind => exact Column.known?_nulls ..

/-! ## Kinds -/

/-- What one column makes of the kind of its source. -/
def kindStep (_ : Page) (source : String) (old : Option Kind) (c : Column) : Except Fault Kind :=
  match old with
  | none => .ok c.kind
  | some kind => if kind = c.kind then .ok kind else .error (.kindConflict source kind c.kind)

theorem keepsKinds_kindStep : KeepsKinds kindStep id where
  fresh _ _ c := ⟨c.kind, rfl, rfl⟩
  same _ _ y _ hk := ⟨y, if_pos hk, hk⟩
  refused _ _ _ _ hk := if_neg hk

theorem addKinds_eq : addKinds = SortedMap.merge Page.columns kindStep := by
  funext kinds p
  unfold addKinds SortedMap.merge
  congr 1
  funext kinds e
  rw [SortedMap.update]
  cases hf : kinds.find? e.1 with
  | none => rfl
  | some kind =>
    simp only [kindStep]
    split
    · exact congrArg Except.ok (SortedMap.insert_of_find? hf).symm
    · rfl

/-! ## Books of pages -/

/-- Pages that are apart are bound in their order, padded to the kinds of all. -/
theorem ofPages_cases {ps : List Page} (h : ps.Pairwise fun p q => p.span.Before q.span) :
    (∃ b, ofPages ps = .ok b ∧ b.pages = ps.map (padPage b.kinds) ∧
        ∀ source kind, b.kinds.find? source = some kind ↔
          Declares (ps.map Page.columns) source kind) ∨
      ∃ fault, ofPages ps = .error fault ∧ fault.IsConflict (ps.map Page.columns) := by
  have hsorted : ps.Pairwise fun p q => p.start ≤ q.start := by
    refine h.imp ?_
    intro p q hpq
    have hord : p.start ≤ p.stop := p.ordered_span
    have hlt : p.stop < q.start := hpq
    omega
  have hdisjoint : Span.checkDisjoint (ps.map Page.span) = .ok () := by
    rw [Span.checkDisjoint_eq_ok_iff, List.pairwise_map]
    · exact h
    · intro s hs
      obtain ⟨p, -, rfl⟩ := List.mem_map.mp hs
      exact p.ordered_span
  have hpages : ofPages ps = (do
      let kinds ← kindsOf ps
      return ⟨ps.map (padPage kinds), kinds⟩) := by
    rw [ofPages, mergeSort_of_ordered Page.start hsorted, hdisjoint]
    rfl
  rw [hpages]
  cases hk : kindsOf ps with
  | ok kinds =>
    rw [kindsOf, addKinds_eq] at hk
    refine .inl ⟨_, rfl, rfl, fun source kind => ?_⟩
    rw [← keepsKinds_kindStep.declares_iff hk, Option.map_id]
    rfl
  | error fault =>
    rw [kindsOf, addKinds_eq] at hk
    exact .inr ⟨fault, rfl, keepsKinds_kindStep.conflict hk⟩

/-! ## Books of regions -/

/-- The book has the instants and the kinds of the blocks, and for each instant the first values
known. -/
structure Shows (b : Book) (bs : List Block) : Prop where
  increasing : Instant.Increasing b.instants
  mem_instants : ∀ t, t ∈ b.instants ↔ ∃ x ∈ bs, t ∈ x.instants
  kinds_iff : ∀ source kind, b.kinds.find? source = some kind ↔
    Declares (bs.map Block.columns) source kind
  known?_eq : ∀ p ∈ b.pages, ∀ t ∈ p.instants, ∀ source,
    p.known? source t = bs.findSome? fun x => x.known? source t

theorem Shows.uniform {b : Book} {bs : List Block} (h : b.Shows bs) :
    Uniform (bs.map Block.columns) := by
  intro source k l hk hl
  rw [← h.kinds_iff] at hk hl
  rw [hk] at hl
  exact Option.some.inj hl

theorem mapM_ofRegion_cases {rs : List Region} (hb : ∀ g ∈ rs, ∀ x ∈ g.blocks, x.Sound) :
    (∃ ps, rs.mapM Page.ofRegion = .ok ps ∧
        List.Forall₂ (fun g p => Page.Joins p g.blocks) rs ps) ∨
      ∃ fault, rs.mapM Page.ofRegion = .error fault ∧
        fault.IsConflict ((rs.flatMap Region.blocks).map Block.columns) := by
  induction rs with
  | nil => exact .inl ⟨[], rfl, .nil⟩
  | cons g rs ih =>
    rw [List.forall_mem_cons] at hb
    rw [List.mapM_cons, List.flatMap_cons, List.map_append]
    rcases Page.ofRegion_cases g hb.1 with ⟨p, hp, hjoins⟩ | ⟨fault, hp, hconflict⟩
    · rw [hp]
      rcases ih hb.2 with ⟨ps, hps, hall⟩ | ⟨fault, hps, hconflict⟩
      · rw [hps]
        exact .inl ⟨p :: ps, rfl, .cons hjoins hall⟩
      · rw [hps]
        exact .inr ⟨fault, rfl, hconflict.mono fun m hm => List.mem_append_right _ hm⟩
    · rw [hp]
      exact .inr ⟨fault, rfl, hconflict.mono fun m hm => List.mem_append_left _ hm⟩

section Joined

variable {rs : List Region} {ps : List Page}

theorem declares_joined (h : List.Forall₂ (fun g p => Page.Joins p g.blocks) rs ps)
    (source : String) (kind : Kind) :
    Declares (ps.map Page.columns) source kind ↔
      Declares ((rs.flatMap Region.blocks).map Block.columns) source kind := by
  induction h with
  | nil => exact Iff.rfl
  | cons hjoins _ ih =>
    rw [List.map_cons, List.flatMap_cons, List.map_append, declares_cons, declares_append, ih,
      ← hjoins.declares]
    rfl

theorem mem_instants_joined (h : List.Forall₂ (fun g p => Page.Joins p g.blocks) rs ps) (t : Int) :
    t ∈ ps.flatMap Page.instants ↔ ∃ x ∈ rs.flatMap Region.blocks, t ∈ x.instants := by
  induction h with
  | nil => simp
  | cons hjoins _ ih =>
    rw [List.flatMap_cons, List.flatMap_cons, List.mem_append, ih, hjoins.mem_instants]
    simp only [List.mem_append, or_and_right, exists_or]

/-- A region's page lies in the span of the region. -/
theorem mem_span_of_joins {g : Region} {p : Page} (h : p.Joins g.blocks)
    (hb : ∀ x ∈ g.blocks, x.Sound) {t : Int} (ht : t ∈ p.instants) : t ∈ g.span := by
  obtain ⟨x, hx, htx⟩ := (h.mem_instants t).mp ht
  exact (Region.within_span hx).mem ((hb x hx).mem_span htx)

theorem before_of_joins {g h : Region} {p q : Page} (hp : p.Joins g.blocks)
    (hq : q.Joins h.blocks) (hg : ∀ x ∈ g.blocks, x.Sound) (hh : ∀ x ∈ h.blocks, x.Sound)
    (hbefore : g.span.Before h.span) : p.span.Before q.span := by
  have hstop := mem_span_of_joins hp hg p.stop_mem
  have hstart := mem_span_of_joins hq hh q.start_mem
  rw [Span.mem_iff] at hstop hstart
  unfold Span.Before at *
  show p.stop < q.start
  omega

theorem pairwise_joined (h : List.Forall₂ (fun g p => Page.Joins p g.blocks) rs ps)
    (hb : ∀ g ∈ rs, ∀ x ∈ g.blocks, x.Sound)
    (ha : rs.Pairwise fun g h => g.span.Before h.span) :
    ps.Pairwise fun p q => p.span.Before q.span := by
  rw [List.pairwise_iff_getElem] at *
  have hlen := h.length_eq
  intro i j hi hj hij
  have hjoins : ∀ k, ∀ hk : k < rs.length, ∀ hk' : k < ps.length, ps[k].Joins rs[k].blocks :=
    fun k hk hk' => h.get hk hk'
  have hi' : i < rs.length := by omega
  have hj' : j < rs.length := by omega
  exact before_of_joins (hjoins i hi' hi) (hjoins j hj' hj) (hb _ (List.getElem_mem hi'))
    (hb _ (List.getElem_mem hj')) (ha i j hi' hj' hij)

/-- Blocks whose spans do not have an instant know nothing there. -/
theorem findSome?_known?_eq_none {bs : List Block} {source : String} {t : Int}
    (h : ∀ x ∈ bs, t ∉ x.instants) : (bs.findSome? fun x => x.known? source t) = none := by
  rw [List.findSome?_eq_none_iff]
  intro x hx
  cases hk : x.known? source t with
  | none => rfl
  | some v => exact absurd (Block.mem_instants_of_known? hk) (h x hx)

/-- On the page of a region, the blocks of the other regions have no instant. -/
theorem known?_joined (h : List.Forall₂ (fun g p => Page.Joins p g.blocks) rs ps)
    (hb : ∀ g ∈ rs, ∀ x ∈ g.blocks, x.Sound)
    (ha : rs.Pairwise fun g h => g.span.Before h.span) {p : Page} (hp : p ∈ ps) {t : Int}
    (ht : t ∈ p.instants) (source : String) :
    p.known? source t =
      (rs.flatMap Region.blocks).findSome? fun x => x.known? source t := by
  induction h with
  | nil => simp at hp
  | @cons g q rs ps hjoins hrest ih =>
    rw [List.forall_mem_cons] at hb
    obtain ⟨hbefore, hapart⟩ := List.pairwise_cons.mp ha
    -- An instant of one region is not one of a later region.
    have hcross : ∀ h ∈ rs, ∀ y ∈ h.blocks, t ∈ y.instants → ∀ x ∈ g.blocks, t ∉ x.instants := by
      intro h hh y hy hty x hx htx
      have hspan := (Region.within_span hx).mem ((hb.1 x hx).mem_span htx)
      have hspan' := (Region.within_span hy).mem ((hb.2 h hh y hy).mem_span hty)
      exact (hbefore h hh).not_mem hspan hspan'
    rw [List.flatMap_cons, List.findSome?_append]
    rcases List.mem_cons.mp hp with rfl | hp
    · obtain ⟨x, hx, htx⟩ := (hjoins.mem_instants t).mp ht
      have hnone : ((rs.flatMap Region.blocks).findSome? fun x => x.known? source t) = none :=
        findSome?_known?_eq_none fun y hy hty => by
          obtain ⟨h, hh, hy⟩ := List.mem_flatMap.mp hy
          exact hcross h hh y hy hty x hx htx
      rw [hnone, Option.or_none, hjoins.known?_eq]
    · obtain ⟨y, hy, hty⟩ := (mem_instants_joined hrest t).mp (List.mem_flatMap.mpr ⟨p, hp, ht⟩)
      obtain ⟨h, hh, hy⟩ := List.mem_flatMap.mp hy
      have hnone : (g.blocks.findSome? fun x => x.known? source t) = none :=
        findSome?_known?_eq_none (hcross h hh y hy hty)
      rw [hnone, Option.none_or, ih hb.2 hapart hp]

end Joined

theorem instants_map_padPage (kinds : SortedMap String Kind) (ps : List Page) :
    (ps.map (padPage kinds)).flatMap Page.instants = ps.flatMap Page.instants := by
  rw [List.flatMap_map]
  simp only [instants_padPage]

theorem increasing_flatMap_instants {ps : List Page}
    (h : ps.Pairwise fun p q => p.span.Before q.span) :
    Instant.Increasing (ps.flatMap Page.instants) := by
  refine List.pairwise_flatMap.mpr ⟨fun p _ => p.increasing, h.imp ?_⟩
  intro p q hbefore t ht u hu
  have ht := p.mem_span ht
  have hu := q.mem_span hu
  rw [Span.mem_iff] at ht hu
  unfold Span.Before at hbefore
  omega

/-- Regions that are apart have a book that shows their blocks, or the fault names two kinds of a
source. -/
theorem ofRegions_cases {rs : List Region} (hb : ∀ g ∈ rs, ∀ x ∈ g.blocks, x.Sound)
    (ha : rs.Pairwise fun g h => g.span.Before h.span) :
    (∃ b, ofRegions rs = .ok b ∧ b.Shows (rs.flatMap Region.blocks)) ∨
      ∃ fault, ofRegions rs = .error fault ∧
        fault.IsConflict ((rs.flatMap Region.blocks).map Block.columns) := by
  rw [ofRegions]
  rcases mapM_ofRegion_cases hb with ⟨ps, hps, hjoined⟩ | ⟨fault, hps, hconflict⟩
  · rw [hps]
    have hpages := pairwise_joined hjoined hb ha
    rcases ofPages_cases hpages with ⟨b, hb', hpadded, hkinds⟩ | ⟨fault, hfault, hconflict⟩
    · have hinstants : b.instants = ps.flatMap Page.instants := by
        rw [instants, hpadded, instants_map_padPage]
      refine .inl ⟨b, hb', ?_, ?_, ?_, ?_⟩
      · rw [hinstants]
        exact increasing_flatMap_instants hpages
      · rw [hinstants]
        exact mem_instants_joined hjoined
      · intro source kind
        rw [hkinds, declares_joined hjoined]
      · intro q hq t ht source
        rw [hpadded] at hq
        obtain ⟨p, hp, rfl⟩ := List.mem_map.mp hq
        rw [instants_padPage] at ht
        rw [known?_padPage, known?_joined hjoined hb ha hp ht]
    · refine .inr ⟨fault, hfault, ?_⟩
      obtain ⟨source, k, l, heq, hne, hk, hl⟩ := hconflict
      rw [declares_joined hjoined] at hk hl
      exact ⟨source, k, l, heq, hne, hk, hl⟩
  · rw [hps]
    exact .inr ⟨fault, rfl, hconflict⟩

end Book

end SeriesTable
