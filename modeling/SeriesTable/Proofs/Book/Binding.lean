import Mathlib.Algebra.GroupWithZero.Nat
import Mathlib.Data.List.Permutation
import SeriesTable.Proofs.Lists
import SeriesTable.Proofs.Book.Pages

/-
  What becomes of pages that are bound in a book, in whatever order they come. They are sorted by
  their starts, and then only neighbours are compared; that refuses them exactly if some two of them
  meet (`Apart`, `ofPages_of_not_apart`). Pages that are apart have one order by their starts, so a
  book does not depend on the order in which its pages come (`ofPages_perm`).

  Main statement: `pages_bound`, everything that is to be said about a list of pages and its book.
-/

namespace SeriesTable

namespace Page

/-- The values of a source, all missing if the page does not have it. -/
def valuesOrNull (p : Page) (source : String) : List Value :=
  ((p.column? source).map Column.values).getD (List.replicate p.rowCount .null)

theorem length_valuesOrNull (p : Page) (source : String) :
    (p.valuesOrNull source).length = p.rowCount := by
  rw [valuesOrNull]
  cases hc : p.column? source with
  | none => exact List.length_replicate
  | some c => exact p.lengths (source, c) (SortedMap.find?_eq_some_iff.mp hc)

end Page

namespace Book

/-! ## Pages that are apart -/

/-- No two of the pages meet. -/
def Apart (ps : List Page) : Prop := ps.Pairwise fun p q => ¬ p.span.Meets q.span

instance (ps : List Page) : Decidable (Apart ps) := inferInstanceAs (Decidable (List.Pairwise _ _))

/-- The pages in the order of their starts. -/
def inOrder (ps : List Page) : List Page := ps.mergeSort fun a b => a.start ≤ b.start

theorem inOrder_perm (ps : List Page) : (inOrder ps).Perm ps := List.mergeSort_perm ..

theorem Apart.perm {ps qs : List Page} (h : Apart ps) (hperm : qs.Perm ps) : Apart qs :=
  (hperm.pairwise_iff fun hpq hqp => hpq hqp.symm).mpr h

/-- Pages in the order of their starts end before all later ones start, unless two of them meet. -/
theorem apart_iff_of_ordered {ps : List Page} (h : ps.Pairwise fun p q => p.start ≤ q.start) :
    Apart ps ↔ ps.Pairwise fun p q => p.span.Before q.span := by
  constructor
  · intro hapart
    refine (h.and hapart).imp ?_
    rintro p q ⟨hle, hmeets⟩
    exact (Span.not_collide_iff p.ordered_span q.ordered_span).mp
      (not_or.mpr ⟨hmeets, Int.not_lt.mpr hle⟩)
  · exact fun hbefore => hbefore.imp Span.Before.not_meets

theorem apart_inOrder_iff (ps : List Page) :
    Apart ps ↔ (inOrder ps).Pairwise fun p q => p.span.Before q.span := by
  have hordered : (inOrder ps).Pairwise fun p q => p.start ≤ q.start :=
    mergeSort_ordered Page.start ps
  rw [← apart_iff_of_ordered hordered]
  exact ⟨fun h => h.perm (inOrder_perm ps), fun h => h.perm (inOrder_perm ps).symm⟩

theorem start_lt_of_before {p q : Page} (h : p.span.Before q.span) : p.start < q.start :=
  Int.lt_of_le_of_lt p.ordered_span h

/-- Pages that are apart have one order. -/
theorem inOrder_eq_of_perm {ps qs : List Page} (h : Apart ps) (hperm : qs.Perm ps) :
    inOrder qs = inOrder ps := by
  have hstarts : ∀ rs : List Page, Apart rs →
      (inOrder rs).Pairwise fun p q => p.start < q.start := fun rs hrs =>
    ((apart_inOrder_iff rs).mp hrs).imp start_lt_of_before
  refine List.Perm.eq_of_pairwise ?_ (hstarts qs (h.perm hperm)) (hstarts ps h)
    ((inOrder_perm qs).trans (hperm.trans (inOrder_perm ps).symm))
  intro p q _ _ hpq hqp
  exact absurd (Int.lt_trans hpq hqp) (Int.lt_irrefl _)

/-! ## Which pages are bound -/

theorem ofPages_eq (ps : List Page) :
    ofPages ps = (do
      Span.checkDisjoint ((inOrder ps).map Page.span)
      let kinds ← kindsOf (inOrder ps)
      return ⟨(inOrder ps).map (padPage kinds), kinds⟩) := rfl

theorem ofPages_of_not_apart {ps : List Page} (h : ¬ Apart ps) :
    ∃ s t, ofPages ps = .error (.collision s t) := by
  have hcheck : Span.checkDisjoint ((inOrder ps).map Page.span) ≠ .ok () := by
    rwa [Ne, Span.checkDisjoint_eq_ok_iff, List.pairwise_map, ← apart_inOrder_iff]
    intro s hs
    obtain ⟨p, -, rfl⟩ := List.mem_map.mp hs
    exact p.ordered_span
  rw [ofPages_eq]
  unfold Span.checkDisjoint at hcheck ⊢
  split at hcheck
  · exact ⟨_, _, rfl⟩
  · exact absurd rfl hcheck

theorem ofPages_perm {ps qs : List Page} (h : Apart ps) (hperm : qs.Perm ps) :
    ofPages qs = ofPages ps := by
  rw [ofPages_eq, ofPages_eq, inOrder_eq_of_perm h hperm]

/-- The book is of these pages in this order: they are apart, and it has them padded to the kinds
of all. -/
structure Binds (b : Book) (ps : List Page) : Prop where
  before : ps.Pairwise fun p q => p.span.Before q.span
  pages_eq : b.pages = ps.map (padPage b.kinds)
  kinds_iff : ∀ source kind, b.kinds.find? source = some kind ↔
    Declares (ps.map Page.columns) source kind

theorem uniform_perm {ps qs : List Page} (hperm : qs.Perm ps) (h : Uniform (ps.map Page.columns)) :
    Uniform (qs.map Page.columns) := by
  have hmono : ∀ {source kind}, Declares (qs.map Page.columns) source kind →
      Declares (ps.map Page.columns) source kind :=
    Declares.mono fun m hm => (hperm.map Page.columns).subset hm
  exact fun source k l hk hl => h source k l (hmono hk) (hmono hl)

theorem Binds.uniform {b : Book} {ps : List Page} (h : b.Binds ps) :
    Uniform (ps.map Page.columns) := by
  intro source k l hk hl
  rw [← h.kinds_iff] at hk hl
  exact Option.some.inj (hk.symm.trans hl)

/-- Pages that are apart are bound in their order, or the fault names two kinds of a source. -/
theorem ofPages_of_apart {ps : List Page} (h : Apart ps) :
    (∃ b, ofPages ps = .ok b ∧ b.Binds (inOrder ps)) ∨
      ∃ fault, ofPages ps = .error fault ∧ fault.IsConflict (ps.map Page.columns) := by
  have hbefore := (apart_inOrder_iff ps).mp h
  rw [← ofPages_perm h (inOrder_perm ps)]
  rcases ofPages_cases hbefore with ⟨b, hb, hpages, hkinds⟩ | ⟨fault, hfault, hconflict⟩
  · exact .inl ⟨b, hb, hbefore, hpages, hkinds⟩
  · exact .inr ⟨fault, hfault,
      hconflict.mono fun m hm => ((inOrder_perm ps).map Page.columns).subset hm⟩

theorem ofPages_ok {ps : List Page} {b : Book} (h : ofPages ps = .ok b) :
    Apart ps ∧ b.Binds (inOrder ps) := by
  by_cases hapart : Apart ps
  · rcases ofPages_of_apart hapart with ⟨c, hc, hbinds⟩ | ⟨fault, hfault, -⟩
    · rw [h] at hc
      cases hc
      exact ⟨hapart, hbinds⟩
    · rw [h] at hfault
      cases hfault
  · obtain ⟨s, t, hcollision⟩ := ofPages_of_not_apart hapart
    rw [h] at hcollision
    cases hcollision

/-- What comes of pages: they meet, or a source has two kinds, or they are bound. -/
theorem ofPages_trichotomy (ps : List Page) :
    (¬ Apart ps ∧ ∃ s t, ofPages ps = .error (.collision s t)) ∨
      (Apart ps ∧ ¬ Uniform (ps.map Page.columns) ∧
        ∃ source k l, ofPages ps = .error (.kindConflict source k l)) ∨
      (Apart ps ∧ Uniform (ps.map Page.columns) ∧ ∃ b, ofPages ps = .ok b) := by
  by_cases hapart : Apart ps
  · rcases ofPages_of_apart hapart with ⟨b, hb, hbinds⟩ | ⟨fault, hfault, hconflict⟩
    · exact .inr (.inr ⟨hapart, uniform_perm (inOrder_perm ps).symm hbinds.uniform, b, hb⟩)
    · obtain ⟨source, k, l, rfl, -⟩ := id hconflict
      exact .inr (.inl ⟨hapart, hconflict.not_uniform, source, k, l, hfault⟩)
  · exact .inl ⟨hapart, ofPages_of_not_apart hapart⟩

/-! ## What a book holds -/

theorem mem_sources_iff {b : Book} {name : String} :
    name ∈ b.sources ↔ ∃ kind, b.kinds.find? name = some kind := SortedMap.mem_keys_iff

theorem rowCount_padPage (kinds : SortedMap String Kind) (p : Page) :
    (padPage kinds p).rowCount = p.rowCount := by
  rw [Page.rowCount, instants_padPage, Page.rowCount]

theorem span_padPage (kinds : SortedMap String Kind) (p : Page) :
    (padPage kinds p).span = p.span := by
  simp only [Page.span, Page.start, Page.stop, instants_padPage]

/-- One page in its book: the columns that it had are left alone, and those of the other sources are
added without a value. -/
structure Padded (kinds : SortedMap String Kind) (p q : Page) : Prop where
  instants : q.instants = p.instants
  sources : q.columns.keys = kinds.keys
  kept : ∀ source c, p.column? source = some c → q.column? source = some c
  added : ∀ source kind, p.column? source = none → kinds.find? source = some kind →
    q.column? source = some (Column.nulls kind p.rowCount)

theorem padded_padPage {kinds : SortedMap String Kind} {p : Page}
    (h : ∀ source c, p.column? source = some c → ∃ kind, kinds.find? source = some kind) :
    Padded kinds p (padPage kinds p) where
  instants := instants_padPage kinds p
  sources := by
    refine SortedMap.keys_eq_of_contains_eq fun source => ?_
    show ((padPage kinds p).column? source).isSome = (kinds.find? source).isSome
    rw [column?_padPage]
    cases hc : p.column? source with
    | none => cases kinds.find? source <;> rfl
    | some c =>
      obtain ⟨kind, hkind⟩ := h source c hc
      rw [hkind]
      rfl
  kept source c hc := by
    rw [column?_padPage, hc]
    rfl
  added source kind hc hkind := by
    rw [column?_padPage, hc, hkind]
    rfl

theorem padPage_padPage (kinds : SortedMap String Kind) (p : Page) :
    padPage kinds (padPage kinds p) = padPage kinds p := by
  refine Page.ext' (instants_padPage ..) (SortedMap.ext_find? fun source => ?_)
  show (padPage kinds (padPage kinds p)).column? source = (padPage kinds p).column? source
  rw [column?_padPage, rowCount_padPage, column?_padPage, Option.or_assoc]
  cases kinds.find? source <;> rfl

theorem valuesOrNull_padPage (kinds : SortedMap String Kind) (p : Page) (source : String) :
    (padPage kinds p).valuesOrNull source = p.valuesOrNull source := by
  rw [Page.valuesOrNull, Page.valuesOrNull, column?_padPage, rowCount_padPage]
  cases p.column? source with
  | some c => rfl
  | none => cases kinds.find? source <;> rfl

theorem exists_column?_padPage {kinds : SortedMap String Kind} {name : String}
    (h : ∃ kind, kinds.find? name = some kind) (p : Page) :
    ∃ c, (padPage kinds p).column? name = some c := by
  obtain ⟨kind, hkind⟩ := h
  rw [column?_padPage, hkind]
  cases p.column? name with
  | some c => exact ⟨c, rfl⟩
  | none => exact ⟨_, rfl⟩

namespace Binds

variable {b : Book} {ps : List Page}

theorem padded (h : b.Binds ps) : List.Forall₂ (Padded b.kinds) ps b.pages := by
  rw [h.pages_eq, List.forall₂_map_right_iff, List.forall₂_same]
  intro p hp
  refine padded_padPage fun source c hc => ⟨c.kind, (h.kinds_iff source c.kind).mpr ?_⟩
  refine ⟨p.columns, List.mem_map_of_mem hp, ?_⟩
  show (p.column? source).map Column.kind = some c.kind
  rw [hc]
  rfl

theorem instants_eq (h : b.Binds ps) : b.instants = ps.flatMap Page.instants := by
  rw [instants, h.pages_eq, instants_map_padPage]

theorem rowCount_eq (h : b.Binds ps) : b.rowCount = (ps.map Page.rowCount).sum := by
  rw [rowCount, h.pages_eq, List.foldr_map, List.sum_eq_foldr, List.foldr_map]
  simp only [rowCount_padPage]

theorem exists_column? (h : b.Binds ps) {name : String} (hname : name ∈ b.sources) {p : Page}
    (hp : p ∈ b.pages) : ∃ c, p.column? name = some c := by
  rw [h.pages_eq] at hp
  obtain ⟨p, -, rfl⟩ := List.mem_map.mp hp
  exact exists_column?_padPage (mem_sources_iff.mp hname) p

/-- The pages of the book have the values of the source, so its series is theirs in a row. -/
theorem series_pages (h : b.Binds ps) {name : String} (hname : name ∈ b.sources) :
    b.series name = .ok (b.pages.flatMap fun p => p.valuesOrNull name) := by
  have hvalues : ∀ p ∈ b.pages, pageValues name p = .ok (p.valuesOrNull name) := by
    intro p hp
    obtain ⟨c, hc⟩ := h.exists_column? hname hp
    rw [pageValues, Page.valuesOrNull, hc]
    rfl
  have hhas : b.hasSource name = true :=
    SortedMap.contains_eq_true_iff.mpr (mem_sources_iff.mp hname)
  rw [series, if_pos hhas, mapM_eq_ok hvalues, List.flatMap]
  rfl

theorem series_eq (h : b.Binds ps) {name : String} (hname : name ∈ b.sources) :
    b.series name = .ok (ps.flatMap fun p => p.valuesOrNull name) := by
  rw [h.series_pages hname, h.pages_eq, List.flatMap_map]
  simp only [valuesOrNull_padPage]

/-- The pages of a book are those of the book that they are bound in. -/
theorem again (h : b.Binds ps) : ofPages b.pages = .ok b := by
  have hdeclares : ∀ source kind, Declares (b.pages.map Page.columns) source kind ↔
      b.kinds.find? source = some kind := by
    intro source kind
    constructor
    · rintro ⟨m, hm, hkind⟩
      obtain ⟨q, hq, rfl⟩ := List.mem_map.mp hm
      rw [h.pages_eq] at hq
      obtain ⟨p, hp, rfl⟩ := List.mem_map.mp hq
      replace hkind : ((padPage b.kinds p).column? source).map Column.kind = some kind := hkind
      rw [column?_padPage] at hkind
      cases hc : p.column? source with
      | some c =>
        rw [hc] at hkind
        refine (h.kinds_iff source kind).mpr ⟨p.columns, List.mem_map_of_mem hp, ?_⟩
        rw [← hkind]
        exact congrArg (Option.map Column.kind) hc
      | none =>
        rw [hc] at hkind
        cases hk : b.kinds.find? source with
        | none => rw [hk] at hkind; cases hkind
        | some k => rw [hk] at hkind; exact hkind
    · intro hkind
      obtain ⟨m, hm, hdeclared⟩ := (h.kinds_iff source kind).mp hkind
      obtain ⟨p, hp, rfl⟩ := List.mem_map.mp hm
      refine ⟨(padPage b.kinds p).columns, ?_, ?_⟩
      · rw [h.pages_eq]
        exact List.mem_map_of_mem (List.mem_map_of_mem hp)
      · obtain ⟨c, hc, hck⟩ := Option.map_eq_some_iff.mp hdeclared
        show ((padPage b.kinds p).column? source).map Column.kind = some kind
        have hcolumn : p.column? source = some c := hc
        rw [column?_padPage, hcolumn]
        exact congrArg some hck
  have hbefore : b.pages.Pairwise fun p q => p.span.Before q.span := by
    rw [h.pages_eq, List.pairwise_map]
    simpa only [span_padPage] using h.before
  rcases ofPages_cases hbefore with ⟨c, hc, hpages, hkinds⟩ | ⟨fault, -, hconflict⟩
  · have hsame : c.kinds = b.kinds := SortedMap.ext_find? fun source => by
      refine Option.ext fun kind => ?_
      rw [hkinds, hdeclares]
    have hpadded : c.pages = b.pages := by
      rw [hpages, hsame, h.pages_eq, List.map_map]
      exact List.map_congr_left fun p _ => padPage_padPage b.kinds p
    obtain ⟨cpages, ckinds⟩ := c
    subst hsame hpadded
    exact hc
  · refine absurd ?_ hconflict.not_uniform
    intro source k l hk hl
    rw [hdeclares] at hk hl
    exact Option.some.inj (hk.symm.trans hl)

end Binds

/-! ## Ends -/

theorem headD_flatMap_instants (p : Page) (ps : List Page) :
    ((p :: ps).flatMap Page.instants).headD 0 = p.start := by
  obtain ⟨t, ts, ht⟩ := List.exists_cons_of_ne_nil p.nonempty
  rw [List.flatMap_cons, Page.start, ht]
  rfl

theorem getLastD_flatMap_instants (ps : List Page) (p : Page) :
    ((ps ++ [p]).flatMap Page.instants).getLastD 0 = p.stop := by
  rw [List.flatMap_append, List.flatMap_singleton, List.getLastD_eq_getLast?,
    List.getLast?_append_of_ne_nil _ p.nonempty, Page.stop, List.getLastD_eq_getLast?]

/-- A book spans from its first instant to its last. -/
theorem span?_eq (b : Book) :
    b.span? = if b.instants = [] then none else some (Span.ofInstants b.instants) := by
  rw [span?, instants]
  cases hps : b.pages with
  | nil => rfl
  | cons p ps =>
    have hne : (p :: ps).flatMap Page.instants ≠ [] :=
      List.ne_nil_of_mem (List.mem_flatMap.mpr ⟨p, List.mem_cons_self .., p.start_mem⟩)
    have hps' : (p :: ps).dropLast ++ [(p :: ps).getLast (List.cons_ne_nil p ps)] = p :: ps :=
      List.dropLast_append_getLast _
    have hstop : ((p :: ps).flatMap Page.instants).getLastD 0 =
        ((p :: ps).getLast (List.cons_ne_nil p ps)).stop := by
      conv_lhs => rw [← hps', getLastD_flatMap_instants]
    rw [if_neg hne, List.head?_cons, List.getLast?_eq_getLast_of_ne_nil (List.cons_ne_nil p ps),
      Span.ofInstants, headD_flatMap_instants, hstop]

/-! ## Books of pages in any order -/

/-- Pages are refused exactly if two of them meet, or else a source has two kinds. Otherwise their
book has them by their starts, each with its own columns as they were and without values for the
other sources; its series and its span are theirs; it is the same book for every order of the pages
and for its own pages. -/
theorem pages_bound (ps : List Page) :
    ((∃ s t, ofPages ps = .error (.collision s t)) ↔ ¬ Apart ps) ∧
    ((∃ source k l, ofPages ps = .error (.kindConflict source k l)) ↔
      Apart ps ∧ ¬ Uniform (ps.map Page.columns)) ∧
    ((∃ b, ofPages ps = .ok b) ↔ Apart ps ∧ Uniform (ps.map Page.columns)) ∧
    ∀ b, ofPages ps = .ok b →
      (∃ sorted : List Page, sorted.Perm ps ∧ (sorted.Pairwise fun p q => p.start < q.start) ∧
        List.Forall₂ (Padded b.kinds) sorted b.pages ∧
        ∀ name ∈ b.sources, b.series name = .ok (sorted.flatMap fun p => p.valuesOrNull name)) ∧
      (∀ source kind, b.kinds.find? source = some kind ↔
        Declares (ps.map Page.columns) source kind) ∧
      (b.sources.Pairwise fun a b => compare a b = .lt) ∧
      b.rowCount = (ps.map Page.rowCount).sum ∧
      (∀ name, name ∉ b.sources → b.series name = .error (.noSuchColumn name)) ∧
      (b.span? = if b.instants = [] then none else some (Span.ofInstants b.instants)) ∧
      (∀ qs, qs.Perm ps → ofPages qs = .ok b) ∧
      ofPages b.pages = .ok b := by
  have houtcome := ofPages_trichotomy ps
  refine ⟨?_, ?_, ?_, ?_⟩
  iterate 3
    rcases houtcome with ⟨h, s, t, hps⟩ | ⟨h, hu, source, k, l, hps⟩ | ⟨h, hu, b, hps⟩
    · simp [hps, h]
    · simp [hps, h, hu]
    · simp [hps, h, hu]
  intro b hb
  obtain ⟨hapart, hbinds⟩ := ofPages_ok hb
  refine ⟨⟨inOrder ps, inOrder_perm ps, hbinds.before.imp start_lt_of_before, hbinds.padded,
    fun name hname => hbinds.series_eq hname⟩, ?_, SortedMap.sorted_keys _, ?_, ?_, span?_eq b, ?_,
    hbinds.again⟩
  · intro source kind
    rw [hbinds.kinds_iff]
    have hperm := (inOrder_perm ps).map Page.columns
    exact ⟨Declares.mono fun m hm => hperm.subset hm,
      Declares.mono fun m hm => hperm.symm.subset hm⟩
  · rw [hbinds.rowCount_eq]
    exact ((inOrder_perm ps).map Page.rowCount).sum_nat
  · intro name hname
    have habsent : b.hasSource name ≠ true := fun h =>
      hname (mem_sources_iff.mpr (SortedMap.contains_eq_true_iff.mp h))
    rw [series, if_neg habsent]
  · exact fun qs hqs => (ofPages_perm hapart hqs).trans hb

/-! Two pages that come in the wrong order, each without the other's source. -/

def evening : Page where
  instants := [10, 11]
  columns := .ofList [("load", ⟨.int, [.int 1, .null]⟩)]
  nonempty := by decide
  increasing := by decide
  lengths := by decide

def morning : Page where
  instants := [0]
  columns := .ofList [("flow", ⟨.int, [.int 5]⟩)]
  nonempty := by decide
  increasing := by decide
  lengths := by decide

theorem pages_bound_unordered :
    ∃ b, ofPages [evening, morning] = .ok b ∧ b.sources = ["flow", "load"] ∧ b.rowCount = 3 ∧
      b.series "flow" = .ok [.int 5, .null, .null] ∧ b.span? = some ⟨0, 11⟩ ∧
      ofPages [morning, evening] = .ok b ∧ ofPages b.pages = .ok b := by
  have huniform : Uniform ([evening, morning].map Page.columns) := by
    have hint : ∀ source k, Declares ([evening, morning].map Page.columns) source k → k = .int := by
      rintro source k ⟨m, hm, hk⟩
      obtain ⟨c, hc, rfl⟩ := Option.map_eq_some_iff.mp hk
      have hkinds : ∀ m ∈ [evening, morning].map Page.columns,
          ∀ e ∈ m.entries, e.2.kind = .int := by
        decide
      exact hkinds m hm (source, c) (SortedMap.find?_eq_some_iff.mp hc)
    exact fun source k l hk hl => (hint source k hk).trans (hint source l hl).symm
  obtain ⟨-, -, hok, hbound⟩ := pages_bound [evening, morning]
  obtain ⟨b, hb⟩ := hok.mpr ⟨by decide, huniform⟩
  obtain ⟨-, -, -, -, -, -, hperm, hagain⟩ := hbound b hb
  have hread : (ofPages [evening, morning]).map (fun b =>
      (b.sources, b.rowCount, b.series "flow", b.span?)) =
        .ok (["flow", "load"], 3, .ok [.int 5, .null, .null], some ⟨0, 11⟩) := by
    cbv
  rw [hb] at hread
  simp only [Except.map, Except.ok.injEq, Prod.mk.injEq] at hread
  obtain ⟨hsources, hrows, hseries, hspan⟩ := hread
  exact ⟨b, hb, hsources, hrows, hseries, hspan, hperm _ (.swap ..), hagain⟩

end Book

end SeriesTable
