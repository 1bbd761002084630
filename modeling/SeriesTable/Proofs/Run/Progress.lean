import SeriesTable.Proofs.Run.Orderly

/-
  Orderly runs do not get stuck if their streams end. `left` bounds what is still to be done in a
  run: until an orderly run has its result, some action is possible after which less is left
  (`Orderly.canMove`). So however the run went so far, it can be brought to its result
  (`Orderly.exists_continuation`).
-/

namespace SeriesTable

namespace Worker

/-- The actions that it takes to bring the worker's fragments to the collector and to end it: for
each fragment it is to ask, to fetch, to offer, to deliver and to poll. -/
def left (feed : Feed) : Worker → Nat
  | waiting part => 5 * (feed.brings part).length + 3
  | ready s => 5 * s.fragments.length + 2
  | asking s => 5 * s.fragments.length + 1
  | holding _ s => 5 * s.fragments.length + 5
  | sending _ s => 5 * s.fragments.length + 4
  | finished | failed _ | stopped | aborted => 0

end Worker

/-- With the worker's actions, the joining of the worker. -/
def Task.left (feed : Feed) (t : Task) : Nat := t.worker.left feed + (!t.joined).toNat

/-- What is left to do for some tasks. -/
def Task.leftOf (feed : Feed) : List Task → Nat
  | [] => 0
  | t :: rest => t.left feed + leftOf feed rest

theorem Task.leftOf_modify (feed : Feed) {tasks : List Task} {i : Nat} {t : Task}
    (h : tasks[i]? = some t) (f : Task → Task) :
    leftOf feed (tasks.modify i f) + t.left feed = leftOf feed tasks + (f t).left feed := by
  induction tasks generalizing i with
  | nil => cases h
  | cons first rest ih =>
    cases i with
    | zero =>
      cases h
      simp only [List.modify_zero_cons, leftOf]
      omega
    | succ i =>
      have hrest := ih h
      simp only [List.modify_succ_cons, leftOf]
      omega

namespace Run

variable {o : Grouping.Options} {feed : Feed} {parts : List Request} {n : Nat} {r r' : Run}

/-! ## What is left to do -/

/-- A bound on the actions until the result, polls that find nothing apart. -/
def left (feed : Feed) (r : Run) : Nat :=
  Task.leftOf feed r.tasks + r.handoff.queue.length + r.handoff.reachable.toNat +
    r.collecting.toNat + r.result.isNone.toNat

/-- Something else than the passing of the time limit can be done, and then there is less left to
do. -/
def CanMove (feed : Feed) (r : Run) : Prop :=
  ∃ a r', a.isExpiry = false ∧ r.step? a = some r' ∧ r'.left feed < r.left feed

theorem left_setWorker {i : Nat} {old : Worker} (hold : r.worker? i = some old) (w : Worker) :
    (r.setWorker i w).left feed + old.left feed = r.left feed + w.left feed := by
  obtain ⟨t, ht, rfl⟩ := Option.map_eq_some_iff.mp hold
  have htasks := Task.leftOf_modify feed ht fun t => { t with worker := w }
  simp only [Task.left] at htasks
  show Task.leftOf feed (r.tasks.modify i _) + r.handoff.queue.length +
    r.handoff.reachable.toNat + r.collecting.toNat + r.result.isNone.toNat + _ = _
  unfold left
  omega

/-! ## Moves -/

theorem canMove_setWorker {q : Run} {a : Action} {i : Nat} {old w : Worker}
    (hs : Step r a (q.setWorker i w)) (ha : a.isExpiry = false) (hold : q.worker? i = some old)
    (hlt : q.left feed + w.left feed < r.left feed + old.left feed) : r.CanMove feed := by
  refine ⟨a, _, ha, hs.step?, ?_⟩
  have hleft : (q.setWorker i w).left feed + old.left feed = q.left feed + w.left feed :=
    left_setWorker hold w
  omega

theorem canMove_poll {f : Fragment} {rest : List Fragment} (hq : r.handoff.queue = f :: rest)
    (hc : r.collecting = true) : r.CanMove feed := by
  refine ⟨.poll, _, rfl, (Step.found hc hq).step?, ?_⟩
  simp [left, hq, hc]

/-- A worker that is sending can deliver, or there is something to be polled. -/
theorem Orderly.canMove_sending (h : r.Orderly o feed parts) {i : Nat} {f : Fragment}
    {rest : Stream} (hw : r.worker? i = some (.sending f rest)) : r.CanMove feed := by
  by_cases hroom : r.handoff.hasRoom = true
  · refine canMove_setWorker (.delivered hw hroom) rfl hw ?_
    simp only [left, Worker.left, List.length_append, List.length_singleton]
    omega
  · have hc : r.collecting = true := by
      cases hc : r.collecting with
      | true => rfl
      | false => exact absurd (h.ended hc).1 (h.not_allJoined hw rfl)
    cases hq : r.handoff.queue with
    | nil => exact absurd (Handoff.hasRoom_of_nil hq) hroom
    | cons g queue => exact canMove_poll hq hc

/-- A stream that ends yields a fragment, its end or its fault. -/
theorem Orderly.canMove_asking (h : r.Orderly o feed parts) (hends : ∀ part ∈ parts, feed.Ends part)
    {i : Nat} {s : Stream} (hw : r.worker? i = some (.asking s)) : r.CanMove feed := by
  obtain ⟨fragments, ending⟩ := s
  cases fragments with
  | cons f rest =>
    refine canMove_setWorker (.yielded hw) rfl hw ?_
    show r.left feed + (5 * rest.length + 5) < r.left feed + (5 * (rest.length + 1) + 1)
    omega
  | nil =>
    cases ending with
    | exhausted => exact canMove_setWorker (.exhausted hw) rfl hw (Nat.lt_succ_self _)
    | broken fault => exact canMove_setWorker (.broke hw) rfl hw (Nat.lt_succ_self _)
    | never =>
      obtain ⟨part, hpart, fs, hstream⟩ := h.serves_of_worker? hw
      exact absurd hstream (hends part (List.mem_of_getElem? hpart) fs)

/-- A worker that holds a permit can move, or there is something to be polled. -/
theorem Orderly.canMove_worker (h : r.Orderly o feed parts) (hends : ∀ part ∈ parts, feed.Ends part)
    {i : Nat} {w : Worker} (hw : r.worker? i = some w) (hholds : w.holdsPermit = true) :
    r.CanMove feed := by
  cases w with
  | waiting _ | finished | failed _ | stopped | aborted => cases hholds
  | ready s => exact canMove_setWorker (.asked hw h.uncancelled) rfl hw (Nat.lt_succ_self _)
  | asking s => exact h.canMove_asking hends hw
  | holding f rest =>
    have hopen := h.open_of_worker? hw rfl
    exact canMove_setWorker (.offered hw hopen) rfl hw (Nat.lt_succ_self _)
  | sending f rest => exact h.canMove_sending hw

theorem Orderly.canMove_enter (h : r.Orderly o feed parts) {i : Nat} {part : Request}
    (hw : r.worker? i = some (.waiting part)) (hp : 0 < r.permits) : r.CanMove feed := by
  have hfree := Nat.ne_of_gt hp
  cases hstream : feed.stream part with
  | ok s =>
    rw [← h.feed_eq] at hstream
    refine canMove_setWorker (.opened hw hfree hstream) rfl hw ?_
    rw [h.feed_eq] at hstream
    show r.left feed + (5 * s.fragments.length + 2) <
      r.left feed + (5 * (feed.brings part).length + 3)
    rw [Feed.brings_of_ok hstream]
    omega
  | error fault =>
    rw [← h.feed_eq] at hstream
    exact canMove_setWorker (.unopened hw hfree hstream) rfl hw
      (Nat.lt_add_of_pos_right (Nat.succ_pos _))

theorem left_join {i : Nat} {w : Worker} (ht : r.tasks[i]? = some ⟨w, false⟩) :
    (r.join i).left feed < r.left feed := by
  have htasks : Task.leftOf feed (r.join i).tasks + (w.left feed + 1) =
      Task.leftOf feed r.tasks + (w.left feed + 0) :=
    Task.leftOf_modify feed ht fun t => { t with joined := true }
  show Task.leftOf feed (r.join i).tasks + r.handoff.queue.length + r.handoff.reachable.toNat +
    r.collecting.toNat + r.result.isNone.toNat < _
  unfold left
  omega

theorem canMove_join {i : Nat} {w : Worker} (ht : r.tasks[i]? = some ⟨w, false⟩)
    (hsettled : w.isSettled = true) (hr : r.result = none) : r.CanMove feed := by
  by_cases hfirst : ∃ fault, w = .failed fault ∧ r.failure = none
  · obtain ⟨fault, rfl, hf⟩ := hfirst
    exact ⟨.join i, _, rfl, (Step.failed ht hr hf).step?, left_join ht⟩
  · have hother : ∀ fault, w = .failed fault → r.failure ≠ none := fun fault hw hf =>
      hfirst ⟨fault, hw, hf⟩
    exact ⟨.join i, _, rfl, (Step.joined ht hr hsettled hother).step?, left_join ht⟩

/-- Once all workers are joined, nobody holds the sending end. -/
theorem Orderly.senders_eq_zero (h : r.Orderly o feed parts) (hb : r.Balanced n)
    (hall : r.AllJoined) : r.handoff.senders = 0 := by
  rw [hb.senders, List.countP_eq_zero]
  intro w hw hsending
  obtain ⟨t, ht, rfl⟩ := List.mem_map.mp hw
  have hsettled := h.settled t ht (hall t ht)
  cases hworker : t.worker with
  | sending f rest =>
    rw [hworker] at hsettled
    cases hsettled
  | waiting _ | ready _ | asking _ | holding _ _ | finished | failed _ | stopped | aborted =>
    rw [hworker] at hsending
    cases hsending

/-- All workers joined, the hand-off can be shut, the end be found and the result be taken. -/
theorem Orderly.canMove_allJoined (h : r.Orderly o feed parts) (hb : r.Balanced n)
    (hr : r.result = none) (hall : r.AllJoined) : r.CanMove feed := by
  by_cases hopen : r.handoff.reachable = true
  · refine ⟨.close, _, rfl, (Step.closed hr hall).step?, ?_⟩
    simp [left, Handoff.shutdown, Handoff.deactivate, Handoff.release, hopen]
  cases hc : r.collecting with
  | true =>
    cases hq : r.handoff.queue with
    | cons f rest => exact canMove_poll hq hc
    | nil =>
      have hshut : ¬ (r.handoff.reachable = true ∨ 0 < r.handoff.senders) := by
        simp [hopen, h.senders_eq_zero hb hall]
      refine ⟨.poll, _, rfl, (Step.drained hc hq hshut).step?, ?_⟩
      simp [left, hc]
  | false =>
    refine ⟨.conclude, _, rfl, (Step.concluded hr hall hc).step?, ?_⟩
    simp [left, hr]

/-- An orderly run without a result is not stuck if its streams end. -/
theorem Orderly.canMove (h : r.Orderly o feed parts) (hends : ∀ part ∈ parts, feed.Ends part)
    (hb : r.Balanced n) (hr : r.result = none) : r.CanMove feed := by
  by_cases hholder : ∃ w ∈ r.workers, w.holdsPermit = true
  · obtain ⟨w, hmem, hholds⟩ := hholder
    obtain ⟨i, hi⟩ := List.getElem?_of_mem hmem
    exact h.canMove_worker hends ((r.worker?_eq i).trans hi) hholds
  have hpermits : 0 < r.permits := hb.supplied.resolve_right hholder
  by_cases hall : r.AllJoined
  · exact h.canMove_allJoined hb hr hall
  obtain ⟨⟨w, joined⟩, ht⟩ := Classical.not_forall.mp hall
  obtain ⟨hmem, hunjoined⟩ := Classical.not_imp.mp ht
  obtain rfl : joined = false := Bool.eq_false_iff.mpr hunjoined
  obtain ⟨i, hi⟩ := List.getElem?_of_mem hmem
  have hw : r.worker? i = some w := by
    rw [worker?, hi]
    rfl
  cases w with
  | waiting part => exact h.canMove_enter hw hpermits
  | ready _ | asking _ | holding _ _ | sending _ _ =>
    exact absurd ⟨_, List.mem_map_of_mem hmem, rfl⟩ hholder
  | finished | failed _ | stopped | aborted => exact canMove_join hi rfl hr

/-- From wherever an orderly run is, actions lead to its result, and the time limit need not
pass. -/
theorem Orderly.exists_finish (h : r.Orderly o feed parts) (hends : ∀ part ∈ parts, feed.Ends part)
    (hb : r.Balanced n) : ∃ steps : List (Nat × Action), (∀ s ∈ steps, s.2.isExpiry = false) ∧
      ∀ elapsed, (r.play ⟨steps, elapsed⟩).result.isSome = true := by
  generalize hn : r.left feed = bound
  induction bound using Nat.strongRecOn generalizing r with
  | ind bound ih =>
    cases hr : r.result with
    | some res =>
      refine ⟨[], fun s hs => (List.not_mem_nil hs).elim, fun elapsed => ?_⟩
      show r.result.isSome = true
      rw [hr]
      rfl
    | none =>
      obtain ⟨a, r', ha, hs, hlt⟩ := h.canMove hends hb hr
      have hstep := step?_eq_some_iff.mp hs
      obtain ⟨steps, htimely, hresult⟩ := ih _ (hn ▸ hlt) (h.step ha hstep) (hb.step hstep) rfl
      refine ⟨(1, a) :: steps, List.forall_mem_cons.mpr ⟨ha, htimely⟩, fun elapsed => ?_⟩
      have hact : r.act a = r' := by
        rw [Run.act, hs]
        rfl
      show ((r.act a).play ⟨steps, elapsed⟩).result.isSome = true
      rw [hact]
      exact hresult elapsed

/-- However an orderly run began, it can be brought to its result. -/
theorem Orderly.exists_continuation (h : r.Orderly o feed parts)
    (hends : ∀ part ∈ parts, feed.Ends part) (hb : r.Balanced n) {script : Script}
    (hs : script.Timely) : ∃ whole : Script, whole.Timely ∧ script.steps <+: whole.steps ∧
      whole.elapsed = script.elapsed ∧ (r.play whole).result.isSome = true := by
  obtain ⟨steps, htimely, hresult⟩ := (h.play hs).exists_finish hends (hb.play script)
  refine ⟨⟨script.steps ++ steps, script.elapsed⟩, ?_, List.prefix_append .., rfl, ?_⟩
  · exact List.forall_mem_append.mpr ⟨hs, htimely⟩
  · have hplay : r.play ⟨script.steps ++ steps, script.elapsed⟩ =
        (r.play script).play ⟨steps, script.elapsed⟩ := List.foldl_append
    rw [hplay]
    exact hresult _

end Run

end SeriesTable
