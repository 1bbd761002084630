import SeriesTable.SortedMap

/-
  Listings of a map against its look-ups: the keys and values listed are those that a look-up finds,
  keys in increasing order, the value of a key at the place of the key. Look-ups themselves tell
  keys apart by the order, and yet find what a function of the keys finds that is changed alike
  (`find?_edited`).
-/

namespace SeriesTable.SortedMap

variable {κ α : Type} [Ord κ]

theorem sorted_keys (m : SortedMap κ α) : m.keys.Pairwise fun a b => compare a b = .lt :=
  List.pairwise_map.mpr m.sorted

theorem nodup_keys [Std.ReflOrd κ] (m : SortedMap κ α) : m.keys.Nodup :=
  m.sorted_keys.imp fun hlt heq => by simp [heq] at hlt

theorem contains_eq_true_iff {m : SortedMap κ α} {k : κ} :
    m.contains k = true ↔ ∃ x, m.find? k = some x :=
  Option.isSome_iff_exists

theorem contains_eq_false_iff {m : SortedMap κ α} {k : κ} :
    m.contains k = false ↔ m.find? k = none := by
  rw [contains, Option.isSome_eq_false_iff, Option.isNone_iff_eq_none]

theorem length_keys (m : SortedMap κ α) : m.keys.length = m.size := List.length_map ..

theorem length_values (m : SortedMap κ α) : m.values.length = m.size := List.length_map ..

theorem findIn_eq_none_of_ne {k : κ} {es : List (κ × α)} (h : ∀ e ∈ es, compare k e.1 ≠ .eq) :
    findIn k es = none := by
  induction es with
  | nil => rfl
  | cons e es ih =>
    have hne := h e (List.mem_cons_self ..)
    rw [findIn, if_neg hne, ih fun d hd => h d (List.mem_cons_of_mem _ hd)]

theorem findIn_eq_none_of_lt {k : κ} {es : List (κ × α)} (h : ∀ e ∈ es, compare k e.1 = .lt) :
    findIn k es = none :=
  findIn_eq_none_of_ne fun e he => by simp [h e he]

theorem findIn_append (k : κ) (es ds : List (κ × α)) :
    findIn k (es ++ ds) = (findIn k es).or (findIn k ds) := by
  induction es with
  | nil => rfl
  | cons e es ih =>
    rw [List.cons_append, findIn, findIn, ih]
    split
    · rfl
    · rfl

/-- Of entries with different keys the order does not count. -/
theorem findIn_perm [Std.LawfulEqOrd κ] {k : κ} {es ds : List (κ × α)} (hperm : es.Perm ds)
    (hes : (es.map (·.1)).Nodup) : findIn k es = findIn k ds := by
  induction hperm with
  | nil => rfl
  | cons e _ ih => rw [findIn, findIn, ih (List.nodup_cons.mp hes).2]
  | swap e d _ =>
    have hne : d.1 ≠ e.1 := fun heq => (List.nodup_cons.mp hes).1 (by simp [heq])
    simp only [findIn]
    split <;> split <;> try rfl
    rename_i hd he
    have hsame := Std.LawfulEqOrd.eq_of_compare hd
    exact absurd (hsame.symm.trans (Std.LawfulEqOrd.eq_of_compare he)) hne
  | trans hfirst _ ihfirst ihsecond =>
    exact (ihfirst hes).trans (ihsecond ((hfirst.map _).nodup_iff.mp hes))

variable [Std.TransOrd κ] [Std.LawfulEqOrd κ]

theorem mem_keys_iff {m : SortedMap κ α} {k : κ} : k ∈ m.keys ↔ ∃ x, m.find? k = some x := by
  unfold keys
  constructor
  · intro h
    obtain ⟨e, he, rfl⟩ := List.mem_map.mp h
    exact ⟨e.2, find?_eq_some_iff.mpr he⟩
  · rintro ⟨x, hx⟩
    exact List.mem_map.mpr ⟨(k, x), find?_eq_some_iff.mp hx, rfl⟩

theorem mem_values_iff {m : SortedMap κ α} {x : α} : x ∈ m.values ↔ ∃ k, m.find? k = some x := by
  unfold values
  constructor
  · intro h
    obtain ⟨e, he, rfl⟩ := List.mem_map.mp h
    exact ⟨e.1, find?_eq_some_iff.mpr he⟩
  · rintro ⟨k, hk⟩
    exact List.mem_map.mpr ⟨(k, x), find?_eq_some_iff.mp hk, rfl⟩

theorem isEmpty_eq_false_iff {m : SortedMap κ α} :
    m.isEmpty = false ↔ ∃ k x, m.find? k = some x := by
  unfold isEmpty
  rw [List.isEmpty_eq_false_iff]
  constructor
  · intro h
    obtain ⟨e, he⟩ := List.exists_mem_of_ne_nil _ h
    exact ⟨e.1, e.2, find?_eq_some_iff.mpr he⟩
  · rintro ⟨k, x, hx⟩
    exact List.ne_nil_of_mem (find?_eq_some_iff.mp hx)

/-- Maps that have the same keys list them alike. -/
theorem keys_eq_of_contains_eq {β : Type} {m : SortedMap κ α} {n : SortedMap κ β}
    (h : ∀ k, m.contains k = n.contains k) : m.keys = n.keys := by
  have hperm : m.keys.Perm n.keys := by
    refine (List.perm_ext_iff_of_nodup m.nodup_keys n.nodup_keys).mpr fun k => ?_
    rw [mem_keys_iff, mem_keys_iff, ← contains_eq_true_iff, ← contains_eq_true_iff, h]
  refine hperm.eq_of_pairwise ?_ m.sorted_keys n.sorted_keys
  intro a b _ _ hab hba
  exact absurd (Std.TransCmp.lt_trans hab hba) (by simp)

/-- Keys and values are listed side by side. -/
theorem find?_getElem_keys (m : SortedMap κ α) {i : Nat} (hk : i < m.keys.length)
    (hv : i < m.values.length) : m.find? m.keys[i] = some m.values[i] := by
  rw [find?_eq_some_iff]
  have hi : i < m.entries.length := by rwa [length_keys] at hk
  have he : (m.keys[i], m.values[i]) = m.entries[i] := by simp [keys, values]
  rw [he]
  exact List.getElem_mem hi

theorem contains_insert (m : SortedMap κ α) (k l : κ) (x : α) :
    (m.insert k x).contains l = true ↔ l = k ∨ m.contains l = true := by
  by_cases hl : compare l k = .eq
  · obtain rfl := Std.LawfulEqOrd.eq_of_compare hl
    rw [contains, find?_insert_self]
    simp
  · have hne : l ≠ k := fun heq => hl (heq ▸ Std.ReflCmp.compare_self)
    rw [contains, contains, find?_insert_of_ne m x hl, or_iff_right hne]

/-- The keys of a map made of entries are those of the entries. -/
theorem mem_keys_ofList {es : List (κ × α)} {k : κ} :
    k ∈ (ofList es).keys ↔ k ∈ es.map (·.1) := by
  have hfold : ∀ m : SortedMap κ α,
      (es.foldl (fun m e => m.insert e.1 e.2) m).contains k = true ↔
        k ∈ es.map (·.1) ∨ m.contains k = true := by
    induction es with
    | nil => simp
    | cons e es ih =>
      intro m
      rw [List.foldl_cons, ih, contains_insert, List.map_cons, List.mem_cons, or_left_comm,
        or_assoc]
  rw [mem_keys_iff, ← contains_eq_true_iff, ofList, hfold]
  simp [contains]

/-- Of entries with different keys none is lost. -/
theorem find?_ofList {es : List (κ × α)} (hes : (es.map (·.1)).Nodup) {k : κ} {x : α} :
    (ofList es).find? k = some x ↔ (k, x) ∈ es := by
  have hfold : ∀ m : SortedMap κ α, (es.foldl (fun m e => m.insert e.1 e.2) m).find? k = some x ↔
      (k, x) ∈ es ∨ (k ∉ es.map (·.1) ∧ m.find? k = some x) := by
    induction es with
    | nil => simp
    | cons e es ih =>
      intro m
      obtain ⟨hfresh, hrest⟩ := List.nodup_cons.mp hes
      rw [List.foldl_cons, ih hrest, List.mem_cons, List.map_cons, List.mem_cons, not_or]
      by_cases hk : k = e.1
      · subst hk
        have habsent : (e.1, x) ∉ es := fun h => hfresh (List.mem_map.mpr ⟨_, h, rfl⟩)
        rw [find?_insert_self]
        simp [hfresh, habsent, Prod.ext_iff, eq_comm]
      · rw [find?_insert_of_ne m _ (by simpa using hk)]
        simp [hk, Prod.ext_iff]
  rw [ofList, hfold]
  simp

theorem size_ofList {es : List (κ × α)} (hes : (es.map (·.1)).Nodup) :
    (ofList es).size = es.length := by
  have hperm : (ofList es).keys.Perm (es.map (·.1)) :=
    (List.perm_ext_iff_of_nodup (ofList es).nodup_keys hes).mpr fun _ => mem_keys_ofList
  rw [← length_keys, hperm.length_eq, List.length_map]

omit [Std.LawfulEqOrd κ] in
/-- An entry goes between those with lesser keys and those with greater ones. -/
theorem insertIn_append {k : κ} {x : α} {before after : List (κ × α)}
    (hbefore : ∀ e ∈ before, compare e.1 k = .lt) (hafter : ∀ e ∈ after, compare k e.1 = .lt) :
    insertIn k x (before ++ after) = before ++ (k, x) :: after := by
  induction before with
  | nil =>
    cases after with
    | nil => rfl
    | cons e after =>
      rw [List.nil_append, insertIn, hafter e (List.mem_cons_self ..)]
      rfl
  | cons e before ih =>
    obtain ⟨hfirst, hrest⟩ := List.forall_mem_cons.mp hbefore
    rw [List.cons_append, insertIn, Std.OrientedCmp.gt_of_lt hfirst, List.cons_append]
    exact congrArg (e :: ·) (ih hrest)

omit [Std.LawfulEqOrd κ] in
/-- A search may turn at any entry. What it looks for is that entry, or is on the side to which the
comparison with its key points. -/
theorem find?_of_entries_eq {m : SortedMap κ α} {before after : List (κ × α)} {l : κ} {x : α}
    (hm : m.entries = before ++ (l, x) :: after) (k : κ) :
    m.find? k =
      match compare k l with
      | .lt => findIn k before
      | .eq => some x
      | .gt => findIn k after := by
  have hsorted := m.sorted
  rw [hm, List.pairwise_append] at hsorted
  obtain ⟨-, hright, hleft⟩ := hsorted
  have hafter := (List.pairwise_cons.mp hright).1
  have hbefore : ∀ e ∈ before, compare e.1 l = .lt :=
    fun e he => hleft e he (l, x) (List.mem_cons_self ..)
  rw [find?, hm, findIn_append, findIn]
  cases hk : compare k l with
  | lt =>
    have hnone : findIn k after = none :=
      findIn_eq_none_of_lt fun e he => Std.TransCmp.lt_trans hk (hafter e he)
    simp [hnone]
  | eq =>
    have hnone : findIn k before = none := findIn_eq_none_of_ne fun e he heq => by
      have hlt := Std.TransCmp.lt_of_lt_of_eq (hbefore e he) (Std.OrientedCmp.eq_symm hk)
      simp [Std.OrientedCmp.eq_symm heq] at hlt
    simp [hnone]
  | gt =>
    have hnone : findIn k before = none := findIn_eq_none_of_ne fun e he heq => by
      have hlt := Std.TransCmp.lt_trans (hbefore e he) (Std.OrientedCmp.lt_of_gt hk)
      simp [Std.OrientedCmp.eq_symm heq] at hlt
    simp [hnone]

theorem find?_erase [DecidableEq κ] (m : SortedMap κ α) (k l : κ) :
    (m.erase k).find? l = if l = k then none else m.find? l := by
  have hmem : ∀ x, (l, x) ∈ (m.erase k).entries ↔ (l, x) ∈ m.entries ∧ k ≠ l := by
    simp [erase]
  refine Option.ext fun x => ?_
  rw [find?_eq_some_iff, hmem, ← find?_eq_some_iff]
  by_cases h : l = k
  · simp [h]
  · simp [h, Ne.symm h]

/-- What stands in a map is not changed by being put there again. -/
theorem insert_of_find? {m : SortedMap κ α} {k : κ} {x : α} (h : m.find? k = some x) :
    m.insert k x = m := by
  refine ext_find? fun l => ?_
  by_cases hl : compare l k = .eq
  · rw [Std.LawfulEqOrd.eq_of_compare hl, find?_insert_self, h]
  · rw [find?_insert_of_ne m x hl]

/-! ## Edits -/

/-- A change of a map. -/
inductive Edit (κ α : Type) where
  | put (k : κ) (x : α)
  | drop (k : κ)

/-- The map after a change. -/
def Edit.apply (m : SortedMap κ α) : Edit κ α → SortedMap κ α
  | put k x => m.insert k x
  | drop k => m.erase k

/-- The change of what is found at each key, if keys are told apart by equality. -/
def Edit.record [DecidableEq κ] (found : κ → Option α) : Edit κ α → κ → Option α
  | put k x, l => if l = k then some x else found l
  | drop k, l => if l = k then none else found l

/-- The map that edits make of an empty one. -/
def edited (edits : List (Edit κ α)) : SortedMap κ α := edits.foldl Edit.apply ∅

/-- What is found at each key after some edits. -/
def recorded [DecidableEq κ] (edits : List (Edit κ α)) : κ → Option α :=
  edits.foldl Edit.record fun _ => none

theorem find?_apply [DecidableEq κ] (m : SortedMap κ α) (e : Edit κ α) :
    (e.apply m).find? = e.record m.find? := by
  funext l
  cases e with
  | put k x => exact m.find?_insert k l x
  | drop k => exact m.find?_erase k l

/-- The map tells keys apart by their order, and finds what telling them apart by equality finds. -/
theorem find?_edited [DecidableEq κ] (edits : List (Edit κ α)) :
    (edited edits).find? = recorded edits := by
  have hfold : ∀ m : SortedMap κ α,
      (edits.foldl Edit.apply m).find? = edits.foldl Edit.record m.find? := by
    induction edits with
    | nil => exact fun _ => rfl
    | cons e edits ih =>
      intro m
      rw [List.foldl_cons, List.foldl_cons, ih, find?_apply]
  exact hfold ∅

end SeriesTable.SortedMap
