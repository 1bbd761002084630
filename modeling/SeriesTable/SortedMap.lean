/-
  Finite maps as lists of entries in strictly increasing key order. The order is part of the
  type, so two maps with the same look-ups are equal (`ext_find?`) and a listing of a map is
  always in key order.
-/

namespace SeriesTable

/-- Entries in strictly increasing order of their keys. -/
structure SortedMap (κ : Type) (α : Type) [Ord κ] where
  entries : List (κ × α)
  sorted : entries.Pairwise fun a b => compare a.1 b.1 = .lt

namespace SortedMap

variable {κ α β : Type} [Ord κ]

instance [DecidableEq κ] [DecidableEq α] : DecidableEq (SortedMap κ α) := fun m n =>
  decidable_of_iff (m.entries = n.entries) (by cases m; cases n; simp)

theorem ext_entries {m n : SortedMap κ α} (h : m.entries = n.entries) : m = n := by
  cases m; cases n; simpa using h

/-- The map without entries. -/
def empty : SortedMap κ α := ⟨[], .nil⟩

instance : EmptyCollection (SortedMap κ α) := ⟨empty⟩

instance : Inhabited (SortedMap κ α) := ⟨empty⟩

/-- The keys in order. -/
def keys (m : SortedMap κ α) : List κ := m.entries.map (·.1)

/-- The values in the order of their keys. -/
def values (m : SortedMap κ α) : List α := m.entries.map (·.2)

/-- The number of entries. -/
def size (m : SortedMap κ α) : Nat := m.entries.length

/-- There are no entries. -/
def isEmpty (m : SortedMap κ α) : Bool := m.entries.isEmpty

/-- Look-up in a list of entries. -/
def findIn (k : κ) : List (κ × α) → Option α
  | [] => none
  | (l, y) :: rest => if compare k l = .eq then some y else findIn k rest

/-- The value at a key. -/
def find? (m : SortedMap κ α) (k : κ) : Option α := findIn k m.entries

/-- There is an entry at the key. -/
def contains (m : SortedMap κ α) (k : κ) : Bool := (m.find? k).isSome

/-- The entries with `x` at `k`, in place of what stood there. -/
def insertIn (k : κ) (x : α) : List (κ × α) → List (κ × α)
  | [] => [(k, x)]
  | (l, y) :: rest =>
    match compare k l with
    | .lt => (k, x) :: (l, y) :: rest
    | .eq => (k, x) :: rest
    | .gt => (l, y) :: insertIn k x rest

theorem mem_insertIn {k : κ} {x : α} {e : κ × α} {l : List (κ × α)} (h : e ∈ insertIn k x l) :
    e = (k, x) ∨ e ∈ l := by
  induction l with
  | nil => simpa [insertIn] using h
  | cons a rest ih =>
    unfold insertIn at h
    split at h
    · simpa using h
    · rcases List.mem_cons.mp h with h | h
      · exact .inl h
      · exact .inr (List.mem_cons_of_mem _ h)
    · rcases List.mem_cons.mp h with h | h
      · exact .inr (by simp [h])
      · rcases ih h with h | h
        · exact .inl h
        · exact .inr (List.mem_cons_of_mem _ h)

theorem sorted_insertIn [Std.TransOrd κ] {k : κ} {x : α} {l : List (κ × α)}
    (h : l.Pairwise fun a b => compare a.1 b.1 = .lt) :
    (insertIn k x l).Pairwise fun a b => compare a.1 b.1 = .lt := by
  induction l with
  | nil => simp [insertIn]
  | cons a rest ih =>
    have hrest := List.pairwise_cons.mp h
    unfold insertIn
    split
    · rename_i hk
      refine List.Pairwise.cons ?_ h
      intro b hb
      rcases List.mem_cons.mp hb with rfl | hb
      · exact hk
      · exact Std.TransCmp.lt_trans hk (hrest.1 b hb)
    · rename_i hk
      refine List.Pairwise.cons ?_ hrest.2
      intro b hb
      exact Std.TransCmp.lt_of_eq_of_lt hk (hrest.1 b hb)
    · rename_i hk
      refine List.Pairwise.cons ?_ (ih hrest.2)
      intro b hb
      rcases mem_insertIn hb with rfl | hb
      · exact Std.OrientedCmp.lt_of_gt hk
      · exact hrest.1 b hb

/-- The map with `x` at `k`. -/
def insert [Std.TransOrd κ] (m : SortedMap κ α) (k : κ) (x : α) : SortedMap κ α :=
  ⟨insertIn k x m.entries, sorted_insertIn m.sorted⟩

/-- The map of a list of entries; of two with one key the last stays. -/
def ofList [Std.TransOrd κ] (es : List (κ × α)) : SortedMap κ α :=
  es.foldl (fun m e => m.insert e.1 e.2) ∅

/-- The map without `k`. -/
def erase (m : SortedMap κ α) (k : κ) : SortedMap κ α :=
  ⟨m.entries.filter fun e => compare k e.1 ≠ .eq, m.sorted.filter _⟩

/-! ## Look-ups -/

@[simp] theorem find?_empty (k : κ) : (∅ : SortedMap κ α).find? k = none := rfl

theorem findIn_insertIn_self [Std.TransOrd κ] {k : κ} {x : α} {l : List (κ × α)} :
    findIn k (insertIn k x l) = some x := by
  induction l with
  | nil => simp [insertIn, findIn]
  | cons a rest ih =>
    unfold insertIn
    split
    · simp [findIn]
    · simp [findIn]
    · rename_i hk
      simp [findIn, hk, ih]

theorem findIn_insertIn_of_ne [Std.TransOrd κ] {k l : κ} {x : α} {es : List (κ × α)}
    (h : compare l k ≠ .eq) : findIn l (insertIn k x es) = findIn l es := by
  induction es with
  | nil => simp [insertIn, findIn, h]
  | cons a rest ih =>
    unfold insertIn
    split
    · simp [findIn, h]
    · rename_i hk
      have : compare l a.1 ≠ .eq := fun hl =>
        h (Std.TransCmp.eq_trans hl (Std.OrientedCmp.eq_symm hk))
      simp [findIn, h, this]
    · simp only [findIn, ih]

theorem find?_insert_self [Std.TransOrd κ] (m : SortedMap κ α) (k : κ) (x : α) :
    (m.insert k x).find? k = some x := findIn_insertIn_self

theorem find?_insert_of_ne [Std.TransOrd κ] (m : SortedMap κ α) {k l : κ} (x : α)
    (h : compare l k ≠ .eq) : (m.insert k x).find? l = m.find? l := findIn_insertIn_of_ne h

theorem find?_insert [Std.TransOrd κ] [Std.LawfulEqOrd κ] [DecidableEq κ] (m : SortedMap κ α)
    (k l : κ) (x : α) : (m.insert k x).find? l = if l = k then some x else m.find? l := by
  by_cases h : l = k
  · subst h; simp [find?_insert_self]
  · rw [find?_insert_of_ne m x (by simpa using h), if_neg h]

theorem findIn_eq_some_of_mem [Std.TransOrd κ] {k : κ} {x : α} {es : List (κ × α)}
    (hs : es.Pairwise fun a b => compare a.1 b.1 = .lt) (h : (k, x) ∈ es) :
    findIn k es = some x := by
  induction es with
  | nil => simp at h
  | cons a rest ih =>
    have hp := List.pairwise_cons.mp hs
    rcases List.mem_cons.mp h with rfl | h
    · simp [findIn]
    · have hlt := hp.1 _ h
      have : compare k a.1 ≠ .eq := fun he => by
        have := Std.TransCmp.lt_of_lt_of_eq hlt he
        simp at this
      simp [findIn, this, ih hp.2 h]

theorem mem_of_findIn_eq_some [Std.LawfulEqOrd κ] {k : κ} {x : α} {es : List (κ × α)}
    (h : findIn k es = some x) : (k, x) ∈ es := by
  induction es with
  | nil => simp [findIn] at h
  | cons a rest ih =>
    unfold findIn at h
    split at h
    · rename_i hk
      have : k = a.1 := Std.LawfulEqOrd.eq_of_compare hk
      simp only [Option.some.injEq] at h
      subst this h
      exact List.mem_cons_self ..
    · exact List.mem_cons_of_mem _ (ih h)

theorem find?_eq_some_iff [Std.TransOrd κ] [Std.LawfulEqOrd κ] {m : SortedMap κ α} {k : κ}
    {x : α} : m.find? k = some x ↔ (k, x) ∈ m.entries :=
  ⟨mem_of_findIn_eq_some, findIn_eq_some_of_mem m.sorted⟩

/-- Two sorted lists with the same members are the same list. -/
theorem entries_eq_of_mem_iff [Std.TransOrd κ] [Std.LawfulEqOrd κ] {l₁ l₂ : List (κ × α)}
    (h₁ : l₁.Pairwise fun a b => compare a.1 b.1 = .lt)
    (h₂ : l₂.Pairwise fun a b => compare a.1 b.1 = .lt) (h : ∀ e, e ∈ l₁ ↔ e ∈ l₂) : l₁ = l₂ := by
  induction l₁ generalizing l₂ with
  | nil =>
    cases l₂ with
    | nil => rfl
    | cons b l₂ => exact absurd ((h b).mpr (List.mem_cons_self ..)) (by simp)
  | cons a l₁ ih =>
    cases l₂ with
    | nil => exact absurd ((h a).mp (List.mem_cons_self ..)) (by simp)
    | cons b l₂ =>
      have p₁ := List.pairwise_cons.mp h₁
      have p₂ := List.pairwise_cons.mp h₂
      have irrefl (c : κ × α) : compare c.1 c.1 ≠ .lt := by simp
      have hab : a = b := by
        rcases List.mem_cons.mp ((h a).mp (List.mem_cons_self ..)) with hab | hab
        · exact hab
        · rcases List.mem_cons.mp ((h b).mpr (List.mem_cons_self ..)) with hba | hba
          · exact hba.symm
          · exact absurd (Std.TransCmp.lt_trans (p₁.1 b hba) (p₂.1 a hab)) (irrefl a)
      subst hab
      refine congrArg (a :: ·) (ih p₁.2 p₂.2 fun e => ?_)
      constructor
      · intro he
        rcases List.mem_cons.mp ((h e).mp (List.mem_cons_of_mem _ he)) with rfl | he'
        · exact absurd (p₁.1 e he) (irrefl e)
        · exact he'
      · intro he
        rcases List.mem_cons.mp ((h e).mpr (List.mem_cons_of_mem _ he)) with rfl | he'
        · exact absurd (p₂.1 e he) (irrefl e)
        · exact he'

/-- A map is what its look-ups say. -/
theorem ext_find? [Std.TransOrd κ] [Std.LawfulEqOrd κ] {m n : SortedMap κ α}
    (h : ∀ k, m.find? k = n.find? k) : m = n := by
  refine ext_entries (entries_eq_of_mem_iff m.sorted n.sorted fun e => ?_)
  rw [← find?_eq_some_iff (m := m), ← find?_eq_some_iff (m := n), h]

end SortedMap

end SeriesTable
