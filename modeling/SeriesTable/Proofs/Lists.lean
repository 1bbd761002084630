import Mathlib.Data.List.Forall2

/-
  Lists one of whose entries changes or is new, lists whose entries are related one by one, and
  lists gone through with a step that may fail.
-/

namespace SeriesTable

theorem mapM_eq_ok {α β ε : Type} {f : α → Except ε β} {g : α → β} {xs : List α}
    (h : ∀ x ∈ xs, f x = .ok (g x)) : xs.mapM f = .ok (xs.map g) := by
  induction xs with
  | nil => rfl
  | cons x xs ih =>
    rw [List.mapM_cons, h x (List.mem_cons_self ..), ih fun y hy => h y (List.mem_cons_of_mem _ hy)]
    rfl

/-- What a step gives at the places of a list, gone through in order, is the list. -/
theorem mapM_range_eq_ok {α ε : Type} {f : Nat → Except ε α} {xs : List α}
    (h : ∀ i x, xs[i]? = some x → f i = .ok x) : (List.range xs.length).mapM f = .ok xs := by
  induction xs generalizing f with
  | nil => rfl
  | cons x xs ih =>
    have hrest : (List.range xs.length).mapM (f ∘ Nat.succ) = .ok xs :=
      ih fun i y hy => h (i + 1) y hy
    rw [List.length_cons, List.range_succ_eq_map, List.mapM_cons, List.mapM_map, hrest, h 0 x rfl]
    rfl

theorem insertIdx_eq_append {α : Type} {xs : List α} {i : Nat} (h : i ≤ xs.length) (x : α) :
    xs.insertIdx i x = xs.take i ++ x :: xs.drop i := by
  induction xs generalizing i with
  | nil =>
    obtain rfl := Nat.le_zero.mp h
    rfl
  | cons y xs ih =>
    cases i with
    | zero => rfl
    | succ i =>
      rw [List.insertIdx_succ_cons, ih (Nat.le_of_succ_le_succ h)]
      rfl

theorem mem_modify {α : Type} {xs : List α} {i : Nat} {f : α → α} {d : α}
    (h : d ∈ xs.modify i f) : d ∈ xs ∨ ∃ t, xs[i]? = some t ∧ d = f t := by
  obtain ⟨j, hj, rfl⟩ := List.getElem_of_mem h
  rw [List.length_modify] at hj
  rw [List.getElem_modify]
  split
  · rename_i hij
    subst hij
    exact .inr ⟨xs[i], List.getElem?_eq_getElem hj, rfl⟩
  · exact .inl (List.getElem_mem hj)

/-- The count goes up by the new entry and down by the old one. -/
theorem countP_set_add {α : Type} {xs : List α} {i : Nat} {x : α} (hx : xs[i]? = some x) (y : α)
    (p : α → Bool) : (xs.set i y).countP p + (p x).toNat = xs.countP p + (p y).toNat := by
  obtain ⟨hi, rfl⟩ := List.getElem?_eq_some_iff.mp hx
  rw [List.countP_set hi]
  cases hp : p xs[i] with
  | false => cases p y <;> simp
  | true =>
    have hpos := List.countP_pos_iff.mpr ⟨_, List.getElem_mem hi, hp⟩
    cases p y <;> simp <;> omega

theorem forall₂_set {α β : Type} {R : α → β → Prop} {xs : List α} {ys : List β} {i : Nat} {y z : β}
    (h : List.Forall₂ R xs ys) (hy : ys[i]? = some y) (hz : ∀ x, R x y → R x z) :
    List.Forall₂ R xs (ys.set i z) := by
  induction h generalizing i with
  | nil => exact .nil
  | cons hxy hrest ih =>
    cases i with
    | zero =>
      cases hy
      exact .cons (hz _ hxy) hrest
    | succ i => exact .cons hxy (ih hy)

theorem forall₂_getElem? {α β : Type} {R : α → β → Prop} {xs : List α} {ys : List β} {i : Nat}
    {y : β} (h : List.Forall₂ R xs ys) (hy : ys[i]? = some y) : ∃ x, xs[i]? = some x ∧ R x y := by
  induction h generalizing i with
  | nil => cases hy
  | cons hxy _ ih =>
    cases i with
    | zero =>
      cases hy
      exact ⟨_, rfl, hxy⟩
    | succ i => exact ih hy

end SeriesTable
