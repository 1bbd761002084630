import SeriesTable.Settings

/-
  Settings are in order exactly if all their fields are within their bounds.
-/

namespace SeriesTable.Settings

/-- Nothing is zero that must not be, and there are not too many streams. -/
structure InBounds (s : Settings) : Prop where
  mostSources : 0 < s.splitting.mostSources
  longestMillis : 0 < s.splitting.longestMillis
  threads : 0 < s.grouping.threads
  streams : 0 < s.streams.most
  streams_le : s.streams.most ≤ mostStreams
  bufferCapacity : 0 < s.streams.bufferCapacity
  pollMillis : 0 < s.streams.pollMillis
  batchSize : 0 < s.streams.batchSize
  limit : 0 < s.deadline.limit

theorem ite_some_eq_none_iff {α : Type} {c : Prop} [Decidable c] {a : α} {x : Option α} :
    (if c then some a else x) = none ↔ ¬ c ∧ x = none := by
  by_cases h : c <;> simp [h]

theorem flaw?_eq_none_iff {s : Settings} : s.flaw? = none ↔ s.InBounds := by
  unfold flaw?
  simp only [ite_some_eq_none_iff, not_or, Nat.not_lt, ← Nat.pos_iff_ne_zero, and_true]
  constructor
  · rintro ⟨h1, h2, h3, ⟨h4, h5⟩, h6, h7, h8, h9⟩
    exact ⟨h1, h2, h3, h4, h5, h6, h7, h8, h9⟩
  · rintro ⟨h1, h2, h3, h4, h5, h6, h7, h8, h9⟩
    exact ⟨h1, h2, h3, ⟨h4, h5⟩, h6, h7, h8, h9⟩

theorem check_eq_ok_iff {s : Settings} : s.check = .ok () ↔ s.InBounds := by
  rw [← flaw?_eq_none_iff, check]
  cases s.flaw? <;> simp

end SeriesTable.Settings
