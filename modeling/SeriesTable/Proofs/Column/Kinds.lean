import SeriesTable.Column
import SeriesTable.Proofs.SortedMap.Merge

/-
  Columns of one source from several places must be of one kind. `Declares` says which kinds a
  source has, `Uniform` that none has two. A merge of columns that keeps kinds and refuses a
  second one (`KeepsKinds`) goes through exactly if the columns are uniform: what it gives has the
  kinds declared (`KeepsKinds.declares_iff`), and where it fails, it names two kinds of one source
  (`KeepsKinds.conflict`).
-/

namespace SeriesTable

/-- Columns by the names of their sources. -/
abbrev Columns := SortedMap String Column

/-- Some of the columns of a source have this kind. -/
def Declares (ms : List Columns) (source : String) (kind : Kind) : Prop :=
  ∃ m ∈ ms, (m.find? source).map Column.kind = some kind

/-- No source has columns of two kinds. -/
def Uniform (ms : List Columns) : Prop :=
  ∀ source k l, Declares ms source k → Declares ms source l → k = l

theorem declares_cons {m : Columns} {ms : List Columns} {source : String} {kind : Kind} :
    Declares (m :: ms) source kind ↔
      (m.find? source).map Column.kind = some kind ∨ Declares ms source kind := by
  simp [Declares]

theorem declares_append {ms ns : List Columns} {source : String} {kind : Kind} :
    Declares (ms ++ ns) source kind ↔ Declares ms source kind ∨ Declares ns source kind := by
  simp only [Declares, List.mem_append, or_and_right, exists_or]

theorem Declares.mono {ms ns : List Columns} {source : String} {kind : Kind}
    (hsub : ∀ m ∈ ms, m ∈ ns) (h : Declares ms source kind) : Declares ns source kind := by
  obtain ⟨m, hm, hk⟩ := h
  exact ⟨m, hsub m hm, hk⟩

theorem declares_iff_mem {ms : List Columns} {source : String} {kind : Kind} :
    Declares ms source kind ↔
      ∃ e ∈ ms.flatMap SortedMap.entries, e.1 = source ∧ e.2.kind = kind := by
  constructor
  · rintro ⟨m, hm, hk⟩
    obtain ⟨c, hc, hkind⟩ := Option.map_eq_some_iff.mp hk
    exact ⟨(source, c), List.mem_flatMap.mpr ⟨m, hm, SortedMap.find?_eq_some_iff.mp hc⟩, rfl, hkind⟩
  · rintro ⟨e, he, rfl, rfl⟩
    obtain ⟨m, hm, he⟩ := List.mem_flatMap.mp he
    exact ⟨m, hm, by rw [SortedMap.find?_eq_some_iff.mpr he]; rfl⟩

theorem uniform_iff_mem {ms : List Columns} : Uniform ms ↔
    ∀ e ∈ ms.flatMap SortedMap.entries, ∀ d ∈ ms.flatMap SortedMap.entries,
      e.1 = d.1 → e.2.kind = d.2.kind := by
  constructor
  · exact fun h e he d hd heq => h e.1 _ _ (declares_iff_mem.mpr ⟨e, he, rfl, rfl⟩)
      (declares_iff_mem.mpr ⟨d, hd, heq.symm, rfl⟩)
  · intro h source k l hk hl
    obtain ⟨e, he, rfl, rfl⟩ := declares_iff_mem.mp hk
    obtain ⟨d, hd, heq, rfl⟩ := declares_iff_mem.mp hl
    exact h e he d hd heq.symm

instance (ms : List Columns) : Decidable (Uniform ms) := decidable_of_iff _ uniform_iff_mem.symm

/-- The fault names two kinds of one source. -/
def Fault.IsConflict (ms : List Columns) (fault : Fault) : Prop :=
  ∃ source k l, fault = .kindConflict source k l ∧ k ≠ l ∧ Declares ms source k ∧
    Declares ms source l

theorem Fault.IsConflict.mono {ms ns : List Columns} {fault : Fault} (hsub : ∀ m ∈ ms, m ∈ ns)
    (h : fault.IsConflict ms) : fault.IsConflict ns := by
  obtain ⟨source, k, l, heq, hne, hk, hl⟩ := h
  exact ⟨source, k, l, heq, hne, hk.mono hsub, hl.mono hsub⟩

theorem Fault.IsConflict.not_uniform {ms : List Columns} {fault : Fault}
    (h : fault.IsConflict ms) : ¬ Uniform ms := by
  obtain ⟨source, k, l, -, hne, hk, hl⟩ := h
  exact fun hu => hne (hu source k l hk hl)

/-- A step that takes a column in keeps its kind, and refuses one of another kind than what
stands. -/
structure KeepsKinds {ι β : Type} (f : ι → String → Option β → Column → Except Fault β)
    (kindOf : β → Kind) : Prop where
  fresh : ∀ i source c, ∃ y, f i source none c = .ok y ∧ kindOf y = c.kind
  same : ∀ i source y c, kindOf y = c.kind → ∃ z, f i source (some y) c = .ok z ∧ kindOf z = c.kind
  refused : ∀ i source y c, kindOf y ≠ c.kind →
    f i source (some y) c = .error (.kindConflict source (kindOf y) c.kind)

namespace KeepsKinds

variable {ι β : Type} {maps : ι → Columns}
  {f : ι → String → Option β → Column → Except Fault β} {kindOf : β → Kind} {items : List ι}
  {source : String}

/-- Taking in one column, whatever stands. -/
theorem step (hf : KeepsKinds f kindOf) (i : ι) (source : String) (old : Option β) (c : Column) :
    (∃ y, f i source old c = .ok y ∧ kindOf y = c.kind ∧ ∀ k ∈ old.map kindOf, k = c.kind) ∨
      ∃ k, f i source old c = .error (.kindConflict source k c.kind) ∧ k ≠ c.kind ∧
        old.map kindOf = some k := by
  cases old with
  | none =>
    obtain ⟨y, hy, hk⟩ := hf.fresh i source c
    exact .inl ⟨y, hy, hk, by simp⟩
  | some y =>
    by_cases hk : kindOf y = c.kind
    · obtain ⟨z, hz, hkind⟩ := hf.same i source y c hk
      exact .inl ⟨z, hz, hkind, by simpa using hk⟩
    · exact .inr ⟨kindOf y, hf.refused i source y c hk, hk, rfl⟩

theorem kind_foldlM_mergeAt (hf : KeepsKinds f kindOf) {old new : Option β}
    (h : items.foldlM (SortedMap.mergeAt maps f source) old = .ok new) (k : Kind) :
    new.map kindOf = some k ↔ old.map kindOf = some k ∨ Declares (items.map maps) source k := by
  induction items generalizing old with
  | nil =>
    cases h
    simp [Declares]
  | cons i items ih =>
    rw [List.map_cons, declares_cons]
    rw [List.foldlM_cons, SortedMap.mergeAt] at h
    cases hc : (maps i).find? source with
    | none =>
      rw [hc] at h
      rw [ih h]
      simp
    | some c =>
      rw [hc] at h
      rcases hf.step i source old c with ⟨y, hy, hkind, hold⟩ | ⟨l, herror, -, -⟩
      · rw [SortedMap.rewritten, hy] at h
        rw [ih h, Option.map_some, Option.map_some, hkind, ← or_assoc]
        refine or_congr_left ?_
        simp only [Option.some.injEq]
        refine (or_iff_right_of_imp fun hk => ?_).symm
        exact (hold k hk).symm
      · rw [SortedMap.rewritten, herror] at h
        cases h

theorem conflict_foldlM_mergeAt (hf : KeepsKinds f kindOf) {old : Option β} {fault : Fault}
    (h : items.foldlM (SortedMap.mergeAt maps f source) old = .error fault) :
    ∃ k l, fault = .kindConflict source k l ∧ k ≠ l ∧
      (old.map kindOf = some k ∨ Declares (items.map maps) source k) ∧
      Declares (items.map maps) source l := by
  induction items generalizing old with
  | nil => cases h
  | cons i items ih =>
    have hcons : ∀ {k}, Declares (items.map maps) source k →
        Declares ((i :: items).map maps) source k :=
      Declares.mono fun m hm => List.mem_cons_of_mem _ hm
    rw [List.foldlM_cons, SortedMap.mergeAt] at h
    cases hc : (maps i).find? source with
    | none =>
      rw [hc] at h
      obtain ⟨k, l, heq, hne, hk, hl⟩ := ih h
      exact ⟨k, l, heq, hne, hk.imp_right hcons, hcons hl⟩
    | some c =>
      rw [hc] at h
      have hdeclared : Declares ((i :: items).map maps) source c.kind :=
        ⟨maps i, List.mem_cons_self .., by rw [hc]; rfl⟩
      rcases hf.step i source old c with ⟨y, hy, hkind, -⟩ | ⟨k, herror, hne, hk⟩
      · rw [SortedMap.rewritten, hy] at h
        obtain ⟨k, l, heq, hne, hk, hl⟩ := ih h
        refine ⟨k, l, heq, hne, .inr ?_, hcons hl⟩
        rcases hk with hk | hk
        · cases hk
          rwa [hkind]
        · exact hcons hk
      · rw [SortedMap.rewritten, herror] at h
        cases h
        exact ⟨k, c.kind, rfl, hne, .inl hk, hdeclared⟩

/-- What a merge gives has exactly the kinds declared. -/
theorem declares_iff (hf : KeepsKinds f kindOf) {n : SortedMap String β}
    (h : items.foldlM (SortedMap.merge maps f) ∅ = .ok n) (source : String) (k : Kind) :
    (n.find? source).map kindOf = some k ↔ Declares (items.map maps) source k := by
  rw [hf.kind_foldlM_mergeAt (SortedMap.foldlM_merge_ok h source)]
  simp

theorem conflict (hf : KeepsKinds f kindOf) {fault : Fault}
    (h : items.foldlM (SortedMap.merge maps f) ∅ = .error fault) :
    fault.IsConflict (items.map maps) := by
  obtain ⟨source, herror⟩ := SortedMap.foldlM_merge_error h
  obtain ⟨k, l, heq, hne, hk, hl⟩ := hf.conflict_foldlM_mergeAt herror
  exact ⟨source, k, l, heq, hne, hk.resolve_left (by simp), hl⟩

end KeepsKinds

end SeriesTable
