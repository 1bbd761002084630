import SeriesTable.Proofs.SortedMap.Lookup

/-
  Maps merged into one another, key by key. A merge goes through the entries of a map and rewrites
  what stands at each key. As a map has a key once, every key goes its own way: after merging any
  number of maps, what stands at a key is what the steps of that key alone give (`foldlM_merge_ok`),
  and a merge fails only as the steps of some key do (`foldlM_merge_error`).
-/

namespace SeriesTable.SortedMap

variable {ι κ α β ε : Type}

/-- What stands at a key after a map that may have an entry there. -/
def rewritten (f : κ → Option β → α → Except ε β) (k : κ) (old : Option β) :
    Option α → Except ε (Option β)
  | none => .ok old
  | some x => (f k old x).map some

theorem rewritten_some_eq_ok {f : κ → Option β → α → Except ε β} {k : κ} {old new : Option β}
    {x : α} (h : rewritten f k old (some x) = .ok new) : ∃ y, f k old x = .ok y ∧ new = some y := by
  rw [rewritten] at h
  cases hf : f k old x with
  | error err =>
    rw [hf] at h
    cases h
  | ok y =>
    rw [hf] at h
    cases h
    exact ⟨y, rfl, rfl⟩

variable [Ord κ] [Std.TransOrd κ]

/-- One entry merged in: what stands at its key is replaced. -/
def update (f : κ → Option β → α → Except ε β) (m : SortedMap κ β) (e : κ × α) :
    Except ε (SortedMap κ β) :=
  (f e.1 (m.find? e.1) e.2).map (m.insert e.1)

/-- A map merged in, entry by entry. -/
def merge (maps : ι → SortedMap κ α) (f : ι → κ → Option β → α → Except ε β) (m : SortedMap κ β)
    (i : ι) : Except ε (SortedMap κ β) :=
  (maps i).entries.foldlM (update (f i)) m

/-- A map merged in, seen at one key. -/
def mergeAt (maps : ι → SortedMap κ α) (f : ι → κ → Option β → α → Except ε β) (k : κ)
    (old : Option β) (i : ι) : Except ε (Option β) :=
  rewritten (f i) k old ((maps i).find? k)

variable [Std.LawfulEqOrd κ]

theorem foldlM_update_ok {f : κ → Option β → α → Except ε β} {es : List (κ × α)}
    {m n : SortedMap κ β} (hs : es.Pairwise fun a b => compare a.1 b.1 = .lt)
    (h : es.foldlM (update f) m = .ok n) (k : κ) :
    rewritten f k (m.find? k) (findIn k es) = .ok (n.find? k) := by
  induction es generalizing m with
  | nil =>
    cases h
    rfl
  | cons e es ih =>
    obtain ⟨hlt, hrest⟩ := List.pairwise_cons.mp hs
    rw [List.foldlM_cons] at h
    cases hf : f e.1 (m.find? e.1) e.2 with
    | error err =>
      rw [update, hf] at h
      cases h
    | ok y =>
      rw [update, hf] at h
      have hnext := ih hrest h
      by_cases hk : compare k e.1 = .eq
      · have hek := Std.LawfulEqOrd.eq_of_compare hk
        subst hek
        rw [findIn_eq_none_of_lt hlt, find?_insert_self] at hnext
        rw [findIn, if_pos hk, rewritten, hf]
        exact hnext
      · rw [find?_insert_of_ne m y hk] at hnext
        rwa [findIn, if_neg hk]

theorem foldlM_update_error {f : κ → Option β → α → Except ε β} {es : List (κ × α)}
    {m : SortedMap κ β} {err : ε} (hs : es.Pairwise fun a b => compare a.1 b.1 = .lt)
    (h : es.foldlM (update f) m = .error err) :
    ∃ k, rewritten f k (m.find? k) (findIn k es) = .error err := by
  induction es generalizing m with
  | nil => cases h
  | cons e es ih =>
    obtain ⟨hlt, hrest⟩ := List.pairwise_cons.mp hs
    rw [List.foldlM_cons] at h
    cases hf : f e.1 (m.find? e.1) e.2 with
    | error err' =>
      rw [update, hf] at h
      cases h
      refine ⟨e.1, ?_⟩
      rw [findIn, if_pos Std.ReflCmp.compare_self, rewritten, hf]
      rfl
    | ok y =>
      rw [update, hf] at h
      obtain ⟨k, herr⟩ := ih hrest h
      have hk : compare k e.1 ≠ .eq := by
        intro hk
        have hek := Std.LawfulEqOrd.eq_of_compare hk
        rw [hek, findIn_eq_none_of_lt hlt] at herr
        cases herr
      refine ⟨k, ?_⟩
      rw [find?_insert_of_ne m y hk] at herr
      rwa [findIn, if_neg hk]

variable {maps : ι → SortedMap κ α} {f : ι → κ → Option β → α → Except ε β}

theorem foldlM_merge_ok {items : List ι} {m n : SortedMap κ β}
    (h : items.foldlM (merge maps f) m = .ok n) (k : κ) :
    items.foldlM (mergeAt maps f k) (m.find? k) = .ok (n.find? k) := by
  induction items generalizing m with
  | nil =>
    cases h
    rfl
  | cons i items ih =>
    rw [List.foldlM_cons] at h ⊢
    cases hi : merge maps f m i with
    | error err =>
      rw [hi] at h
      cases h
    | ok m' =>
      rw [hi] at h
      have hk : mergeAt maps f k (m.find? k) i = .ok (m'.find? k) :=
        foldlM_update_ok (maps i).sorted hi k
      rw [hk]
      exact ih h

theorem foldlM_merge_error {items : List ι} {m : SortedMap κ β} {err : ε}
    (h : items.foldlM (merge maps f) m = .error err) :
    ∃ k, items.foldlM (mergeAt maps f k) (m.find? k) = .error err := by
  induction items generalizing m with
  | nil => cases h
  | cons i items ih =>
    rw [List.foldlM_cons] at h
    cases hi : merge maps f m i with
    | error err' =>
      rw [hi] at h
      cases h
      obtain ⟨k, hk⟩ := foldlM_update_error (maps i).sorted hi
      have hat : mergeAt maps f k (m.find? k) i = .error err := hk
      refine ⟨k, ?_⟩
      rw [List.foldlM_cons, hat]
      rfl
    | ok m' =>
      rw [hi] at h
      obtain ⟨k, hk⟩ := ih h
      have hat : mergeAt maps f k (m.find? k) i = .ok (m'.find? k) :=
        foldlM_update_ok (maps i).sorted hi k
      refine ⟨k, ?_⟩
      rw [List.foldlM_cons, hat]
      exact hk

end SeriesTable.SortedMap
