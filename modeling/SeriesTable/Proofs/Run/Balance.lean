import SeriesTable.Proofs.Lists
import SeriesTable.Proofs.Run.Steps

/-
  What holds in every run, whatever is done in it. `Balanced` says that the permits are not all
  lost, that the sending end of the hand-off is held by the workers that are sending, and that the
  workers counted as completed are those that have finished; every step preserves it, the passing
  of the time limit among them (`Balanced.step`).
-/

namespace SeriesTable

/-- The worker has read its stream to the end. -/
def Worker.isFinished : Worker → Bool
  | finished => true
  | _ => false

theorem Worker.isFinished_of_unsettled {w : Worker} (h : w.isSettled = false) :
    w.isFinished = false := by
  cases w with
  | finished => cases h
  | waiting _ | ready _ | asking _ | holding _ _ | sending _ _ | failed _ | stopped | aborted => rfl

namespace Run

variable {r r' : Run}

/-! ## Workers -/

/-- The states of all workers, in the order of the parts. -/
def workers (r : Run) : List Worker := r.tasks.map Task.worker

theorem worker?_eq (r : Run) (i : Nat) : r.worker? i = r.workers[i]? :=
  List.getElem?_map.symm

/-- Hearing of a worker's end does not change it. -/
theorem workers_join (r : Run) (i : Nat) : (r.join i).workers = r.workers := by
  refine List.ext_getElem? fun j => ?_
  show ((r.tasks.modify i fun t => { t with joined := true }).map Task.worker)[j]? = _
  rw [workers, List.getElem?_map, List.getElem?_modify, List.getElem?_map]
  split
  · cases r.tasks[j]? <;> rfl
  · cases r.tasks[j]? <;> rfl

theorem workers_setWorker (r : Run) (i : Nat) (w : Worker) :
    (r.setWorker i w).workers = r.workers.set i w := by
  refine List.ext_getElem? fun j => ?_
  show ((r.tasks.modify i fun t => { t with worker := w }).map Task.worker)[j]? = _
  rw [workers, List.getElem?_map, List.getElem?_modify, List.getElem?_set, List.getElem?_map,
    List.length_map]
  by_cases hij : i = j
  · subst hij
    rw [if_pos rfl]
    cases ht : r.tasks[i]? with
    | none =>
      rw [if_neg (Nat.not_lt.mpr (List.getElem?_eq_none_iff.mp ht))]
      rfl
    | some t =>
      rw [if_pos (List.getElem?_eq_some_iff.mp ht).1]
      simp
  · simp [hij]

/-! ## Permits, senders and completed workers -/

/-- A permit is free, or a worker will give one back. -/
def Supplied (r : Run) : Prop := 0 < r.permits ∨ ∃ w ∈ r.workers, w.holdsPermit = true

/-- Of the `n` workers, none waits for a permit or for the end of a push in vain, and those that
have finished are counted. -/
structure Balanced (n : Nat) (r : Run) : Prop where
  tasks : r.tasks.length = n
  supplied : r.Supplied
  senders : r.handoff.senders = r.workers.countP Worker.isSending
  completed : r.tally.completed = r.workers.countP Worker.isFinished

variable {n : Nat}

theorem Balanced.completed_le (h : r.Balanced n) : r.tally.completed ≤ n := by
  rw [h.completed, ← h.tasks, ← List.length_map (f := Task.worker)]
  exact List.countP_le_length

theorem countP_workers_start (s : Settings) (feed : Feed) (parts : List Request)
    {p : Worker → Bool} (hp : ∀ part, p (.waiting part) = false) :
    (start s feed parts).workers.countP p = 0 := by
  refine List.countP_eq_zero.mpr fun w hw => ?_
  obtain ⟨t, ht, rfl⟩ := List.mem_map.mp hw
  obtain ⟨part, -, rfl⟩ := List.mem_map.mp ht
  rw [hp]
  exact Bool.false_ne_true

theorem balanced_start (s : Settings) (hs : 0 < s.streams.most) (feed : Feed)
    (parts : List Request) : (start s feed parts).Balanced parts.length where
  tasks := List.length_map ..
  supplied := .inl hs
  senders := (countP_workers_start s feed parts fun _ => rfl).symm
  completed := (countP_workers_start s feed parts fun _ => rfl).symm

theorem supplied_setWorker {i : Nat} {w : Worker} (h : r.Supplied) :
    (r.setWorker i w).Supplied := by
  rcases h with h | ⟨old, hmem, hholds⟩
  · exact .inl (Nat.lt_of_lt_of_le h (Nat.le_add_right ..))
  · obtain ⟨j, hj⟩ := List.getElem?_of_mem hmem
    by_cases hij : i = j
    · subst hij
      by_cases hw : w.holdsPermit = true
      · refine .inr ⟨w, ?_, hw⟩
        rw [workers_setWorker]
        exact List.mem_set (List.getElem?_eq_some_iff.mp hj).1 w
      · refine .inl ?_
        show 0 < r.permits + _
        rw [worker?_eq, hj]
        simp [hholds, hw]
    · refine .inr ⟨old, List.mem_of_getElem? (i := j) ?_, hholds⟩
      rw [workers_setWorker, List.getElem?_set_ne hij, hj]

theorem supplied_of_holdsPermit {i : Nat} {old w : Worker} (hold : r.worker? i = some old)
    (hw : w.holdsPermit = true) : (r.setWorker i w).Supplied := by
  rw [worker?_eq] at hold
  refine .inr ⟨w, ?_, hw⟩
  rw [workers_setWorker]
  exact List.mem_set (List.getElem?_eq_some_iff.mp hold).1 w

theorem countP_setWorker {i : Nat} {old : Worker} (hold : r.worker? i = some old) (w : Worker)
    (p : Worker → Bool) :
    (r.setWorker i w).workers.countP p + (p old).toNat = r.workers.countP p + (p w).toNat := by
  rw [workers_setWorker]
  exact countP_set_add (r.worker?_eq i ▸ hold) w p

theorem toNat_le_countP {i : Nat} {w : Worker} (hw : r.worker? i = some w) (p : Worker → Bool) :
    (p w).toNat ≤ r.workers.countP p := by
  rw [worker?_eq] at hw
  cases hp : p w with
  | false => exact Nat.zero_le _
  | true => exact List.countP_pos_iff.mpr ⟨_, List.mem_of_getElem? hw, hp⟩

/-- The worker lets go of the sending end if it held it, and takes hold of it if it is sending
now; and it is counted if it has finished now. -/
theorem Balanced.setWorker {i : Nat} {old w : Worker} (htasks : r.tasks.length = n)
    (h : r.Supplied ∨ w.holdsPermit = true) (hold : r.worker? i = some old)
    (hsenders : r.handoff.senders + old.isSending.toNat =
      r.workers.countP Worker.isSending + w.isSending.toNat)
    (hcompleted : r.tally.completed + old.isFinished.toNat =
      r.workers.countP Worker.isFinished + w.isFinished.toNat) :
    (r.setWorker i w).Balanced n where
  tasks := (List.length_modify ..).trans htasks
  supplied := h.elim supplied_setWorker (supplied_of_holdsPermit hold)
  senders := by
    have hcount := countP_setWorker hold w Worker.isSending
    show r.handoff.senders = _
    omega
  completed := by
    have hcount := countP_setWorker hold w Worker.isFinished
    show r.tally.completed = _
    omega

theorem Balanced.join (h : r.Balanced n) (i : Nat) : (r.join i).Balanced n := by
  have hworkers := workers_join r i
  refine ⟨(List.length_modify ..).trans h.tasks, ?_, ?_, ?_⟩
  · rw [Supplied, hworkers]
    exact h.supplied
  · rw [hworkers]
    exact h.senders
  · rw [hworkers]
    exact h.completed

theorem Balanced.step (h : r.Balanced n) {a : Action} (hs : Step r a r') : r'.Balanced n := by
  cases hs with
  | opened hw | asked hw | yielded hw =>
    exact Balanced.setWorker h.tasks (.inr rfl) hw h.senders h.completed
  | unopened hw | stopped hw | broke hw | refused hw =>
    exact Balanced.setWorker h.tasks (.inl h.supplied) hw h.senders h.completed
  | exhausted hw =>
    have hcompleted := congrArg (· + 1) h.completed
    exact Balanced.setWorker h.tasks (.inl h.supplied) hw h.senders hcompleted
  | offered hw =>
    have hsenders := congrArg (· + 1) h.senders
    exact Balanced.setWorker h.tasks (.inr rfl) hw hsenders h.completed
  | delivered hw =>
    refine Balanced.setWorker h.tasks (.inr rfl) hw ?_ h.completed
    have hle := toNat_le_countP hw Worker.isSending
    rw [← h.senders] at hle
    exact (Nat.sub_add_cancel hle).trans h.senders
  | aborted hw _ hat =>
    refine Balanced.setWorker h.tasks (.inl h.supplied) hw ?_ ?_
    · have hle := toNat_le_countP hw Worker.isSending
      rw [← h.senders] at hle
      exact (Nat.sub_add_cancel hle).trans h.senders
    · rw [Worker.isFinished_of_unsettled hat]
      exact h.completed
  | @failed i =>
    have hjoined := h.join i
    exact ⟨hjoined.tasks, hjoined.supplied, hjoined.senders, hjoined.completed⟩
  | @joined i => exact h.join i
  | closed | found | idled | drained | concluded | cancelled | cut | brokenOff =>
    exact ⟨h.tasks, h.supplied, h.senders, h.completed⟩

theorem Balanced.play (h : r.Balanced n) (script : Script) : (r.play script).Balanced n :=
  play_preserves (Q := fun _ => True) (fun h _ hs => h.step hs) (fun _ _ => trivial) h

end Run

end SeriesTable
