import SeriesTable.Handoff

/-
  The steps of a hand-off, one lemma for what each can do.
-/

namespace SeriesTable

namespace Handoff

variable {h h' : Handoff} {f : Fragment}

/-- There is always room for one fragment, so that only the capacity asked for counts. -/
theorem tryMake_eq (capacity : Nat) :
    tryMake capacity = if capacity ≤ mostPermits then .ended (make capacity) else .brokenOff := by
  have hmost : max 1 capacity ≤ mostPermits ↔ capacity ≤ mostPermits := by
    unfold mostPermits
    omega
  simp only [tryMake, hmost]

theorem attachIfActive_eq (h : Handoff) : h.attachIfActive =
    if h.active = true ∧ h.reachable = true then .ok { h with senders := h.senders + 1 }
    else .error .bufferClosed := by
  unfold attachIfActive admits attach
  cases h.active <;> cases h.reachable <;> rfl

theorem send?_eq_some_iff : h.send? f = some h' ↔
    h.hasRoom = true ∧
      h' = { h with queue := h.queue ++ [f], senders := h.senders - 1 } := by
  unfold send?
  by_cases hroom : h.hasRoom = true
  · rw [if_pos hroom, and_iff_right hroom, Option.some.injEq, eq_comm]
  · rw [if_neg hroom]
    exact iff_of_false (fun hsome => by cases hsome) fun hall => hroom hall.1

theorem hasRoom_of_nil (hq : h.queue = []) : h.hasRoom = true := by
  rw [hasRoom, hq]
  exact decide_eq_true h.capacity_pos

theorem poll_of_cons {rest : List Fragment} (hq : h.queue = f :: rest) :
    h.poll = (.fragment f, { h with queue := rest }) := by
  rw [poll, hq]

theorem poll_of_nil (hq : h.queue = []) :
    h.poll = if h.reachable = true ∨ 0 < h.senders then (.idle, h) else (.drained, h) := by
  rw [poll, hq]

end Handoff

end SeriesTable
