/-
  Sorting by an integer key: what `mergeSort` gives, said without it. The elements are the same,
  the keys do not decrease, and elements of one key keep their order
  (`stablySorted_mergeSort`). A list that is in order already is left alone.
-/

namespace SeriesTable

/-- `ys` holds the elements of `xs` by their keys, those of one key in the order of `xs`. -/
structure StablySorted {α : Type} (key : α → Int) (xs ys : List α) : Prop where
  perm : ys.Perm xs
  ordered : ys.Pairwise fun a b => key a ≤ key b
  stable : ∀ k, (ys.filter fun a => key a = k) = xs.filter fun a => key a = k

variable {α : Type} (key : α → Int)

theorem keyLe_trans (a b c : α) (hab : decide (key a ≤ key b)) (hbc : decide (key b ≤ key c)) :
    decide (key a ≤ key c) := by
  simp only [decide_eq_true_eq] at *
  omega

theorem keyLe_total (a b : α) : decide (key a ≤ key b) || decide (key b ≤ key a) := by
  simp only [Bool.or_eq_true, decide_eq_true_eq]
  omega

theorem mergeSort_ordered (xs : List α) :
    (xs.mergeSort fun a b => key a ≤ key b).Pairwise fun a b => key a ≤ key b := by
  simpa using List.pairwise_mergeSort (keyLe_trans key) (keyLe_total key) xs

theorem mergeSort_stable (xs : List α) (k : Int) :
    ((xs.mergeSort fun a b => key a ≤ key b).filter fun a => key a = k) =
      xs.filter fun a => key a = k := by
  have hperm := List.mergeSort_perm xs fun a b => decide (key a ≤ key b)
  -- The elements of one key are an ordered sublist, and sorting keeps such sublists.
  have hkeys : (xs.filter fun a => key a = k).Pairwise fun a b => decide (key a ≤ key b) := by
    apply List.pairwise_of_forall_mem_list
    intro a ha b hb
    simp only [List.mem_filter, decide_eq_true_eq] at ha hb ⊢
    omega
  have hsub := List.sublist_mergeSort (keyLe_trans key) (keyLe_total key) hkeys
    List.filter_sublist
  have hsub := hsub.filter fun a => decide (key a = k)
  rw [List.filter_filter] at hsub
  simp only [Bool.and_self] at hsub
  exact (hsub.eq_of_length (hperm.filter _).length_eq.symm).symm

theorem stablySorted_mergeSort (xs : List α) :
    StablySorted key xs (xs.mergeSort fun a b => key a ≤ key b) where
  perm := List.mergeSort_perm ..
  ordered := mergeSort_ordered key xs
  stable := mergeSort_stable key xs

theorem mergeSort_of_ordered {xs : List α} (h : xs.Pairwise fun a b => key a ≤ key b) :
    (xs.mergeSort fun a b => key a ≤ key b) = xs :=
  List.mergeSort_of_pairwise (by simpa using h)

end SeriesTable
