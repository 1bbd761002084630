import SeriesTable.Region

/-
  Spans in a row. `LeastCover s ss` says that `s` is the smallest span around all of `ss`; folding
  `hull` over spans gives it (`leastCover_foldl_hull`). `checkDisjoint` looks at neighbours only,
  and yet it accepts a row of spans exactly if every span ends before all later ones start; of a row
  that it refuses it shows the first neighbours that break this (`checkDisjoint_decides`).
-/

namespace SeriesTable.Span

/-! ## Covers -/

/-- Every instant of `a` lies between the ends of `b`. -/
def Within (a b : Span) : Prop := b.start ≤ a.start ∧ a.stop ≤ b.stop

theorem Within.refl (a : Span) : a.Within a := ⟨Int.le_refl _, Int.le_refl _⟩

theorem Within.trans {a b c : Span} (hab : a.Within b) (hbc : b.Within c) : a.Within c := by
  unfold Within at *
  omega

theorem Within.mem {a b : Span} (h : a.Within b) {t : Int} (ht : t ∈ a) : t ∈ b := by
  rw [mem_iff] at *
  unfold Within at h
  omega

theorem within_hull_left (a b : Span) : a.Within (a.hull b) := by
  simp only [Within, hull]
  omega

theorem within_hull_right (a b : Span) : b.Within (a.hull b) := by
  simp only [Within, hull]
  omega

theorem hull_within {a b t : Span} (ha : a.Within t) (hb : b.Within t) : (a.hull b).Within t := by
  simp only [Within, hull] at *
  omega

/-- `s` covers all of `ss`, and every span that does covers `s`. -/
def LeastCover (s : Span) (ss : List Span) : Prop :=
  (∀ a ∈ ss, a.Within s) ∧ ∀ t : Span, (∀ a ∈ ss, a.Within t) → s.Within t

theorem leastCover_foldl_hull (s : Span) (ss : List Span) :
    LeastCover (ss.foldl hull s) (s :: ss) := by
  induction ss generalizing s with
  | nil =>
    refine ⟨?_, fun t ht => ht s (List.mem_cons_self ..)⟩
    intro a ha
    rw [List.mem_singleton.mp ha]
    exact Within.refl s
  | cons b ss ih =>
    obtain ⟨hcover, hleast⟩ := ih (s.hull b)
    have hhull := hcover _ (List.mem_cons_self ..)
    constructor
    · intro a ha
      rcases List.mem_cons.mp ha with rfl | ha
      · exact (within_hull_left a b).trans hhull
      rcases List.mem_cons.mp ha with rfl | ha
      · exact (within_hull_right s a).trans hhull
      · exact hcover a (List.mem_cons_of_mem _ ha)
    · intro t ht
      apply hleast
      intro a ha
      rcases List.mem_cons.mp ha with rfl | ha
      · exact hull_within (ht s (by simp)) (ht b (by simp))
      · exact ht a (by simp [ha])

/-! ## Rows -/

/-- `a` has ended when `b` starts. -/
def Before (a b : Span) : Prop := a.stop < b.start

instance (a b : Span) : Decidable (a.Before b) := inferInstanceAs (Decidable (_ < _))

theorem Before.not_meets {a b : Span} (h : a.Before b) : ¬ a.Meets b := by
  unfold Before at h
  unfold Meets
  omega

theorem Before.not_mem {a b : Span} (h : a.Before b) {t : Int} (ha : t ∈ a) : t ∉ b := by
  rw [mem_iff] at *
  unfold Before at h
  omega

theorem Before.trans {a b c : Span} (hab : a.Before b) (hb : b.Ordered) (hbc : b.Before c) :
    a.Before c := by
  unfold Before Ordered at *
  omega

/-- Narrower spans are before one another if the spans around them are. -/
theorem Before.mono {a b c d : Span} (h : b.Before d) (ha : a.Within b) (hc : c.Within d) :
    a.Before c := by
  unfold Before Within at *
  omega

theorem not_collide_iff {a b : Span} (ha : a.Ordered) (hb : b.Ordered) :
    ¬ (a.Meets b ∨ b.start < a.start) ↔ a.Before b := by
  unfold Meets Before
  unfold Ordered at ha hb
  omega

theorem firstCollision?_eq_none_iff {ss : List Span} (h : ∀ s ∈ ss, s.Ordered) :
    firstCollision? ss = none ↔ ss.Pairwise Before := by
  induction ss with
  | nil => simp [firstCollision?]
  | cons a rest ih =>
    cases rest with
    | nil => simp [firstCollision?]
    | cons b rest =>
      have ha := h a (by simp)
      have hb := h b (by simp)
      have hrest := ih fun s hs => h s (List.mem_cons_of_mem _ hs)
      unfold firstCollision?
      by_cases hc : a.Meets b ∨ b.start < a.start
      · simp only [if_pos hc, reduceCtorEq, false_iff]
        intro hp
        exact (not_collide_iff ha hb).mpr (List.rel_of_pairwise_cons hp (by simp)) hc
      · have hab := (not_collide_iff ha hb).mp hc
        rw [if_neg hc, hrest]
        constructor
        · intro hp
          refine List.Pairwise.cons ?_ hp
          intro c hc
          rcases List.mem_cons.mp hc with rfl | hc
          · exact hab
          · exact hab.trans hb (List.rel_of_pairwise_cons hp hc)
        · exact List.Pairwise.of_cons

theorem checkDisjoint_eq_ok_iff {ss : List Span} (h : ∀ s ∈ ss, s.Ordered) :
    checkDisjoint ss = .ok () ↔ ss.Pairwise Before := by
  rw [← firstCollision?_eq_none_iff h]
  unfold checkDisjoint
  split <;> simp_all

/-- The collision found is that of the first neighbours of which the earlier has not ended when the
later starts. -/
theorem firstCollision?_eq_some_iff {ss : List Span} (h : ∀ s ∈ ss, s.Ordered) {p : Span × Span} :
    firstCollision? ss = some p ↔ ∃ i, ∃ hi : i + 1 < ss.length, p = (ss[i], ss[i + 1]) ∧
      ¬ ss[i].Before ss[i + 1] ∧ ∀ j (_ : j < i), ss[j].Before ss[j + 1] := by
  induction ss with
  | nil => simp [firstCollision?]
  | cons a rest ih =>
    cases rest with
    | nil => simp [firstCollision?]
    | cons b rest =>
      have hab := not_collide_iff (h a (by simp)) (h b (by simp))
      have hrest := ih fun s hs => h s (List.mem_cons_of_mem _ hs)
      unfold firstCollision?
      by_cases hc : a.Meets b ∨ b.start < a.start
      · rw [if_pos hc]
        have hclash : ¬ a.Before b := fun hbefore => hab.mpr hbefore hc
        constructor
        · intro hp
          exact ⟨0, by simp, (Option.some.inj hp).symm, hclash, fun j hj => by omega⟩
        · rintro ⟨i, hi, rfl, -, hfirst⟩
          -- the neighbours at the front collide, so none before them can come first
          obtain rfl : i = 0 := by
            refine Nat.eq_zero_of_not_pos fun hpos => hclash ?_
            exact hfirst 0 hpos
          rfl
      · have hbefore := hab.mp hc
        rw [if_neg hc, hrest]
        constructor
        · rintro ⟨i, hi, rfl, hclash, hfirst⟩
          refine ⟨i + 1, Nat.succ_lt_succ hi, rfl, hclash, fun j hj => ?_⟩
          cases j with
          | zero => exact hbefore
          | succ j => exact hfirst j (Nat.lt_of_succ_lt_succ hj)
        · rintro ⟨i, hi, rfl, hclash, hfirst⟩
          cases i with
          | zero => exact absurd hbefore hclash
          | succ i =>
            exact ⟨i, Nat.lt_of_succ_lt_succ hi, rfl, hclash,
              fun j hj => hfirst (j + 1) (Nat.succ_lt_succ hj)⟩

theorem checkDisjoint_eq_error_iff {ss : List Span} {fault : Fault} :
    checkDisjoint ss = .error fault ↔
      ∃ p, firstCollision? ss = some p ∧ fault = .collision p.1 p.2 := by
  unfold checkDisjoint
  cases firstCollision? ss with
  | none => simp
  | some p => simp [eq_comm]

/-- Looking at neighbours alone settles how any two spans of the row lie. If all is well every span
has ended when a later one starts, wherever the two stand; if not, the fault shows the first
neighbours of which this is not so. -/
theorem checkDisjoint_decides {ss : List Span} (h : ∀ s ∈ ss, s.Ordered) :
    (checkDisjoint ss = .ok () ↔
      ∀ i j (_ : i < j) (_ : j < ss.length), ss[i].stop < ss[j].start) ∧
    ∀ fault, checkDisjoint ss = .error fault ↔
      ∃ i, ∃ _ : i + 1 < ss.length, fault = .collision ss[i] ss[i + 1] ∧
        ¬ ss[i].stop < ss[i + 1].start ∧ ∀ j (_ : j < i), ss[j].stop < ss[j + 1].start := by
  constructor
  · rw [checkDisjoint_eq_ok_iff h, List.pairwise_iff_getElem]
    exact ⟨fun hp i j hij hj => hp i j _ hj hij, fun hp i j _ hj hij => hp i j hij hj⟩
  · intro fault
    rw [checkDisjoint_eq_error_iff]
    constructor
    · rintro ⟨p, hp, rfl⟩
      obtain ⟨i, hi, rfl, hclash, hfirst⟩ := (firstCollision?_eq_some_iff h).mp hp
      exact ⟨i, hi, rfl, hclash, hfirst⟩
    · rintro ⟨i, hi, rfl, hclash, hfirst⟩
      exact ⟨_, (firstCollision?_eq_some_iff h).mpr ⟨i, hi, rfl, hclash, hfirst⟩, rfl⟩

/-- Three spans of which the third lies within the second, and one that has ended before them. -/
def nestedRow : List Span := [⟨10, 13⟩, ⟨15, 19⟩, ⟨17, 18⟩, ⟨1, 2⟩]

theorem checkDisjoint_decides_nestedRow :
    (∀ s ∈ nestedRow, s.Ordered) ∧ (∀ s ∈ nestedRow.take 2, s.Ordered) ∧
      checkDisjoint nestedRow = .error (.collision ⟨15, 19⟩ ⟨17, 18⟩) ∧
      checkDisjoint (nestedRow.take 2) = .ok () := by
  have hrow : ∀ s ∈ nestedRow, s.Ordered := by decide
  have htaken : ∀ s ∈ nestedRow.take 2, s.Ordered := by decide
  refine ⟨hrow, htaken, ?_, ?_⟩
  · exact ((checkDisjoint_decides hrow).2 _).mpr ⟨1, by decide, rfl, by decide, by decide⟩
  · refine (checkDisjoint_decides htaken).1.mpr fun i j hij hj => ?_
    have hj : j < 2 := hj
    obtain ⟨rfl, rfl⟩ : i = 0 ∧ j = 1 := by omega
    show (13 : Int) < 15
    decide

end SeriesTable.Span
