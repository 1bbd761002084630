import Mathlib.Data.List.TakeWhile
import SeriesTable.Feed
import SeriesTable.Request.Planner
import SeriesTable.Proofs.Request.Cover

/-
  Plans. The split of a planner is never refused (`plan_not_refused`): it takes no more intervals
  than the range has instants. So a planner always has parts, and the parts together are served the
  fragments that the request is served, each once (`served_parts`).
-/

namespace SeriesTable

theorem runsNeeded_le {n size : Nat} (hn : 0 < n) (hs : 0 < size) : runsNeeded n size ≤ n := by
  refine Nat.div_le_of_le_mul ?_
  obtain ⟨a, rfl⟩ := Nat.exists_eq_succ_of_ne_zero (Nat.ne_of_gt hn)
  obtain ⟨b, rfl⟩ := Nat.exists_eq_succ_of_ne_zero (Nat.ne_of_gt hs)
  have hmul : (b + 1) * (a + 1) = b * a + b + a + 1 := by
    rw [Nat.add_mul, Nat.mul_add, Nat.one_mul, Nat.mul_one]
    omega
  have := Nat.zero_le (b * a)
  show a + 1 + (b + 1) - 1 ≤ (b + 1) * (a + 1)
  omega

namespace Planner

theorem plan_not_refused (p : Planner) {r : Request} (hr : r.Valid) (policy : Policy) :
    ¬ (p.plan r policy).Refused r.duration := by
  have hd : 0 < r.duration := by
    have := hr.2.1
    unfold Request.duration
    omega
  have hruns := runsNeeded_le (n := r.duration.toNat) (by omega) p.longest_pos
  have hle : ((max 1 (runsNeeded r.duration.toNat p.longest) : Nat) : Int) ≤ r.duration := by
    omega
  unfold plan
  simp only
  split
  · simp [Split.Refused]
  · split
    · simp [Split.Refused]
    · split
      · simp only [Split.Refused]
        simp
        omega
      · split
        · simp only [Split.Refused]
          simp
          omega
        · split
          · simp [Split.Refused]
          · simp only [Split.Refused]
            simp
            omega

/-- A planner has parts, and one of them asks for each source at each instant of the request. -/
theorem parts_ok (p : Planner) {r : Request} (hr : r.Valid) :
    ∃ parts, p.parts r = .ok parts ∧ ∀ source t,
      parts.countP (fun part => part.Asks source t) = if r.Asks source t then 1 else 0 := by
  unfold parts
  split
  · obtain ⟨hi, hle, hok⟩ := Request.divide_ok hr (p.plan_not_refused hr p.policy)
    exact ⟨_, hok, (Request.cover_grid _ hi hle).countP hr.2.2.2⟩
  · refine ⟨[r], rfl, fun source t => ?_⟩
    rw [List.countP_singleton]
    simp

/-- What is reserved for the parts does not change them. -/
theorem parts_of_tryParts {p : Planner} {r : Request} {parts : Except Fault (List Request)}
    (h : p.tryParts r = .ended parts) : p.parts r = parts := by
  unfold tryParts at h
  unfold Planner.parts
  by_cases henabled : p.enabled = true
  · rw [if_pos henabled, Request.tryDivide_eq] at h
    rw [if_pos henabled]
    split at h
    · cases h
    · exact Attempt.ended.inj h
  · rw [if_neg henabled] at h
    rw [if_neg henabled]
    exact Attempt.ended.inj h

end Planner

/-! ## Fragments of parts -/

namespace Feed

theorem mem_served {r : Request} {fs : List Fragment} {f : Fragment} :
    f ∈ served r fs ↔ f ∈ fs ∧ r.Asks f.source f.axis.start := by
  rw [served, List.mem_filter, decide_eq_true_eq]
  rfl

theorem count_served (r : Request) (fs : List Fragment) (f : Fragment) :
    (served r fs).count f = if r.Asks f.source f.axis.start then fs.count f else 0 := by
  by_cases h : r.Asks f.source f.axis.start
  · rw [if_pos h, served, List.count_filter]
    rw [decide_eq_true_eq]
    exact h
  · rw [if_neg h, List.count_eq_zero]
    exact fun hmem => h (mem_served.mp hmem).2

theorem count_flatMap_served (parts : List Request) (fs : List Fragment) (f : Fragment) :
    (parts.flatMap fun part => served part fs).count f =
      parts.countP (fun part => part.Asks f.source f.axis.start) * fs.count f := by
  induction parts with
  | nil => simp
  | cons part parts ih =>
    rw [List.flatMap_cons, List.count_append, ih, List.countP_cons, count_served, Nat.add_mul]
    by_cases h : part.Asks f.source f.axis.start <;> simp [h, Nat.add_comm]

/-- Parts that share out a request are served its fragments. -/
theorem served_parts {r : Request} {parts : List Request}
    (h : ∀ source t, parts.countP (fun part => part.Asks source t) =
      if r.Asks source t then 1 else 0) (fs : List Fragment) :
    (parts.flatMap fun part => served part fs).Perm (served r fs) := by
  rw [List.perm_iff_count]
  intro f
  rw [count_flatMap_served, h, count_served]
  split <;> simp

/-- Without a failing source a stream brings the part's fragments and ends. -/
theorem stream_stored (fs : List Fragment) (delay : Nat) (part : Request) :
    (stored fs delay none).stream part = .ok ⟨served part fs, .exhausted⟩ := by
  have hall : ((served part fs).takeWhile fun f => (none : Option String) ≠ some f.source) =
      served part fs :=
    List.takeWhile_eq_self_iff.mpr fun _ _ => rfl
  rw [stream, breaking, hall, List.drop_length]

end Feed

end SeriesTable
