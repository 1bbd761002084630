import SeriesTable.Axis

/-
  Instants of axes. The instants of a checked axis increase, the first one is its start and the last
  one its stop, so all of them lie in its span. The order of axes is by their starts first.
-/

namespace SeriesTable

/-! ## Increasing instants -/

namespace Instant.Increasing

variable {ts : List Int} {t : Int}

theorem nodup (h : Increasing ts) : ts.Nodup := h.imp fun hlt => Int.ne_of_lt hlt

theorem headD_le (h : Increasing ts) (ht : t ∈ ts) : ts.headD 0 ≤ t := by
  cases ts with
  | nil => simp at ht
  | cons a rest =>
    rcases List.mem_cons.mp ht with rfl | ht
    · exact Int.le_refl _
    · exact Int.le_of_lt (List.rel_of_pairwise_cons h ht)

theorem le_getLastD (h : Increasing ts) (ht : t ∈ ts) : t ≤ ts.getLastD 0 := by
  induction ts generalizing t with
  | nil => simp at ht
  | cons a rest ih =>
    cases rest with
    | nil =>
      rw [List.mem_singleton.mp ht]
      exact Int.le_refl _
    | cons b rest =>
      have hab := List.rel_of_pairwise_cons h (List.mem_cons_self ..)
      have hrest := h.of_cons
      show t ≤ (b :: rest).getLastD 0
      rcases List.mem_cons.mp ht with rfl | ht
      · have := ih hrest (List.mem_cons_self ..)
        omega
      · exact ih hrest ht

end Instant.Increasing

/-! ## Clocks -/

namespace Clock

theorem instant_lt (c : Clock) {i j : Nat} (h : i < j) : c.instant i < c.instant j := by
  have hmul := Int.mul_lt_mul_of_pos_right (Int.ofNat_lt.mpr h) c.period_pos
  unfold instant
  omega

theorem instants_increasing (c : Clock) : Instant.Increasing c.instants := by
  refine List.pairwise_map.mpr (List.pairwise_lt_range.imp ?_)
  intro i j h
  exact c.instant_lt h

theorem instants_ne_nil (c : Clock) : c.instants ≠ [] := by
  apply List.ne_nil_of_length_pos
  rw [c.length_instants]
  exact c.count_pos

theorem headD_instants (c : Clock) : c.instants.headD 0 = c.start := by
  obtain ⟨n, hn⟩ := Nat.exists_eq_succ_of_ne_zero (Nat.ne_of_gt c.count_pos)
  rw [instants, hn, List.range_succ_eq_map]
  simp [instant]

theorem getLastD_instants (c : Clock) : c.instants.getLastD 0 = c.stop := by
  obtain ⟨n, hn⟩ := Nat.exists_eq_succ_of_ne_zero (Nat.ne_of_gt c.count_pos)
  rw [instants, hn, List.range_succ, List.map_append]
  simp [instant, stop, reach, hn]

end Clock

/-! ## Axes -/

namespace Axis

variable {a b : Axis} {t : Int}

theorem check_eq_ok_iff : a.check = .ok () ↔ a.instants ≠ [] ∧ Instant.Increasing a.instants := by
  cases a with
  | clock c =>
    exact iff_of_true rfl ⟨c.instants_ne_nil, c.instants_increasing⟩
  | list ts =>
    show check (.list ts) = .ok () ↔ ts ≠ [] ∧ Instant.Increasing ts
    rw [← Instant.firstDescent?_eq_none_iff]
    unfold check
    by_cases hn : ts = []
    · simp [hn]
    · cases hd : Instant.firstDescent? ts <;> simp [hn, hd]

theorem headD_instants (a : Axis) : a.instants.headD 0 = a.start := by
  cases a with
  | clock c => exact c.headD_instants
  | list ts => rfl

theorem getLastD_instants (a : Axis) : a.instants.getLastD 0 = a.stop := by
  cases a with
  | clock c => exact c.getLastD_instants
  | list ts => rfl

theorem head?_instants (h : a.instants ≠ []) : a.instants.head? = some a.start := by
  rw [← a.headD_instants, List.headD_eq_head?_getD, List.head?_eq_some_head h]
  rfl

theorem getLast?_instants (h : a.instants ≠ []) : a.instants.getLast? = some a.stop := by
  rw [← a.getLastD_instants, List.getLastD_eq_getLast?, List.getLast?_eq_some_getLast h]
  rfl

theorem mem_span_of_mem_instants (h : a.check = .ok ()) (ht : t ∈ a.instants) : t ∈ a.span := by
  have hi := (check_eq_ok_iff.mp h).2
  rw [Span.mem_iff, span, ← a.headD_instants, ← a.getLastD_instants]
  exact ⟨hi.headD_le ht, hi.le_getLastD ht⟩

theorem ordered_span (h : a.check = .ok ()) : a.span.Ordered := by
  obtain ⟨t, ht⟩ := List.exists_mem_of_ne_nil _ (check_eq_ok_iff.mp h).1
  have := mem_span_of_mem_instants h ht
  rw [Span.mem_iff] at this
  unfold Span.Ordered
  omega

/-- An axis that is not after another does not start after it. -/
theorem start_le_of_compare (h : compare a b ≠ .gt) : a.start ≤ b.start := by
  rw [← Int.compare_ne_gt]
  intro hgt
  apply h
  show Axis.compare a b = .gt
  unfold Axis.compare
  rw [compareLex, Ordering.then_eq_gt]
  exact .inl hgt

end Axis

end SeriesTable
