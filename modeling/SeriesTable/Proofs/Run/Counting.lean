import Mathlib.Algebra.Order.BigOperators.Group.List
import SeriesTable.Proofs.Collector.Handed
import SeriesTable.Proofs.Request.Sizes
import SeriesTable.Proofs.Run.Outcome

/-
  What the counts of a run say. In every run, whatever is done in it, the fragments that were
  rejected are among those that were received (`Backed`), and the collector's batches cut up what it
  polled (`Handed`). As long as nothing goes wrong, what was received and what the streams have
  still to bring make up what they bring in all (`Tracked`). So a run with a grouping for its result
  has received each fragment of each stream once, has completed every part and rejected nothing
  (`counted_of_ok`).
-/

namespace SeriesTable

namespace Worker

/-- The worker has a fragment that it has not handed over yet. -/
def carries : Worker → Bool
  | holding .. | sending .. => true
  | waiting _ | ready _ | asking _ | finished | failed _ | stopped | aborted => false

/-- The fragments that the worker has not received yet. -/
def unfetched (feed : Feed) : Worker → List Fragment
  | waiting part => feed.brings part
  | ready s | asking s | holding _ s | sending _ s => s.fragments
  | finished | failed _ | stopped | aborted => []

end Worker

/-- Of a batch no more is rejected than is in it. -/
theorem Collector.rejected_hand_le (c : Collector) (batch : List Fragment) :
    (c.hand batch).rejected ≤ c.rejected + batch.length := by
  unfold hand
  split
  · omega
  · split
    · exact Nat.le_add_right ..
    · split
      · exact Nat.le_add_right ..
      · unfold settle
        split <;> dsimp only <;> omega

/-- A poll leaves no more waiting and rejected than there was and than it found. -/
theorem Collector.step_spares (c : Collector) (p : Handoff.Poll) :
    (c.step p).pending.length + (c.step p).rejected ≤
      c.pending.length + c.rejected + p.found.length := by
  have hdivide := congrArg List.length (c.divide_append p)
  rw [List.length_append, List.length_append] at hdivide
  obtain ⟨stalls, ⟨-, -, hstep⟩ | ⟨-, -, hpending, hstep⟩ | ⟨-, batch, rfl, -, -, hstep⟩⟩ :=
    c.step_cases p
  · rw [hstep]
    exact Nat.le_add_right ..
  · rw [hstep, hpending]
    simp only [List.length_append]
    omega
  · have hle := rejected_hand_le { c with pending := (c.divide p).1, stalls } (c.divide p).2
    rw [hstep, pending_hand]
    dsimp only at hle ⊢
    omega

namespace Run

variable {o : Grouping.Options} {size n : Nat} {feed : Feed} {parts : List Request} {r r' : Run}

/-! ## Whatever is done -/

/-- The fragments that wait or were rejected, those in the hand-off and those of the workers are
no more than were received. -/
def Backed (r : Run) : Prop :=
  r.collector.pending.length + r.collector.rejected + r.handoff.queue.length +
    r.workers.countP Worker.carries ≤ r.tally.received

theorem backed_start (s : Settings) (feed : Feed) (parts : List Request) :
    (start s feed parts).Backed := by
  rw [Backed, countP_workers_start s feed parts fun _ => rfl]
  exact Nat.le_refl _

theorem Backed.rejected_le (h : r.Backed) : r.collector.rejected ≤ r.tally.received := by
  unfold Backed at h
  omega

/-- What a worker has, the hand-off gains or the worker had or has received. -/
theorem Backed.setWorker (h : r.Backed) {i : Nat} {old w : Worker} (hold : r.worker? i = some old)
    {permits : Nat} {handoff : Handoff} {tally : Tally}
    (hle : handoff.queue.length + w.carries.toNat + r.tally.received ≤
      r.handoff.queue.length + old.carries.toNat + tally.received) :
    ({ r with permits, handoff, tally }.setWorker i w).Backed := by
  have hcount := countP_setWorker hold w Worker.carries
  unfold Backed at h
  show r.collector.pending.length + r.collector.rejected + handoff.queue.length +
    (r.setWorker i w).workers.countP Worker.carries ≤ tally.received
  omega

/-- A poll takes what it finds out of the hand-off. -/
theorem Backed.collected (h : r.Backed) (p : Handoff.Poll) {queue : List Fragment}
    (hfound : r.handoff.queue = p.found ++ queue) {collecting : Bool} :
    { r with
      handoff := { r.handoff with queue }
      collector := r.collector.step p
      collecting }.Backed := by
  have hspares := r.collector.step_spares p
  have hlength := congrArg List.length hfound
  rw [List.length_append] at hlength
  unfold Backed at h
  show (r.collector.step p).pending.length + (r.collector.step p).rejected + queue.length +
    r.workers.countP Worker.carries ≤ r.tally.received
  omega

theorem Backed.step (h : r.Backed) {a : Action} (hs : Step r a r') : r'.Backed := by
  cases hs with
  | opened hw | unopened hw | asked hw | stopped hw | exhausted hw | broke hw | offered hw =>
    exact h.setWorker hw (Nat.le_refl _)
  | refused hw | aborted hw =>
    exact h.setWorker hw (Nat.add_le_add_right (Nat.add_le_add_left (Nat.zero_le _) _) _)
  | yielded hw => exact h.setWorker hw (Nat.le_of_eq (Nat.add_right_comm ..))
  | delivered hw =>
    refine h.setWorker hw ?_
    rw [List.length_append]
    exact Nat.le_refl _
  | @failed i | @joined i =>
    unfold Backed at *
    rw [← workers_join r i] at h
    exact h
  | found _ hq => exact h.collected (.fragment _) hq
  | idled => exact h.collected .idle rfl
  | drained => exact h.collected .drained rfl
  | closed | concluded | cancelled | cut | brokenOff => exact h

theorem Backed.play (h : r.Backed) (script : Script) : (r.play script).Backed :=
  play_preserves (Q := fun _ => True) (fun h _ hs => h.step hs) (fun _ _ => trivial) h

/-- The collector's batches cut up what it has polled. -/
def Handed (o : Grouping.Options) (size : Nat) (r : Run) : Prop :=
  ∃ polled batches, Collector.Cut size r.collector batches ∧
    Collector.Account o r.collector polled batches

theorem handed_start (s : Settings) (hs : 0 < s.streams.batchSize) (feed : Feed)
    (parts : List Request) : (start s feed parts).Handed s.grouping s.streams.batchSize :=
  ⟨[], [], Collector.cut_make s.grouping hs, Collector.account_make ..⟩

theorem Handed.step (h : r.Handed o size) {a : Action} (hs : Step r a r') : r'.Handed o size := by
  obtain ⟨polled, batches, hcut, haccount⟩ := h
  have hpoll (p : Handoff.Poll) : ∃ polled batches,
      Collector.Cut size (r.collector.step p) batches ∧
      Collector.Account o (r.collector.step p) polled batches :=
    ⟨_, _, hcut.step haccount.ready p, haccount.step hcut.threads p⟩
  cases hs with
  | found | idled | drained => exact hpoll _
  | opened | unopened | asked | stopped | yielded | exhausted | broke | offered | refused
  | delivered | aborted | failed | joined | closed | concluded | cancelled | cut | brokenOff =>
    exact ⟨polled, batches, hcut, haccount⟩

theorem Handed.play (h : r.Handed o size) (script : Script) : (r.play script).Handed o size :=
  play_preserves (Q := fun _ => True) (fun h _ hs => h.step hs) (fun _ _ => trivial) h

/-- For a grouping that kept `n` fragments there were at most `n` batches, and no fewer than it
takes to hold them; and nothing was rejected. -/
theorem Handed.batches_of_ok (h : r.Handed o size) (hsize : 0 < size) {g : Grouping}
    (hg : r.collector.result = .ok g) :
    r.collector.rejected = 0 ∧ runsNeeded g.fragments size ≤ r.collector.batches ∧
      r.collector.batches ≤ g.fragments := by
  obtain ⟨polled, batches, hcut, haccount⟩ := h
  cases haccount with
  | stopped before batch rest before' after fault hslot hbatches haccept hkeeps hbatch hfault =>
    rw [Collector.result, hfault] at hg
    cases hg
  | going g' hslot hfault hrejected haccept hkeeps hpolled =>
    rw [Collector.result, hfault, hslot] at hg
    cases hg
    have hcount : r.collector.batches = (batches.map List.length).length := by
      rw [hcut.count, List.length_map]
    have hsum : g.fragments = (batches.map List.length).sum := by
      rw [hkeeps.fragments, List.length_flatten]
    refine ⟨hrejected, ?_, ?_⟩
    · rw [runsNeeded_le_iff hsize, hcount, hsum, Nat.mul_comm]
      exact List.sum_le_card_nsmul _ _ (by simpa using hcut.fits)
    · rw [hcount, hsum]
      refine List.length_le_sum_of_one_le _ ?_
      simpa [Nat.one_le_iff_ne_zero] using hcut.nonempty

/-! ## While nothing goes wrong -/

/-- The fragments that were received, and counted, and those that the workers have still to receive
are those of all parts. -/
structure Fetched (feed : Feed) (parts : List Request) (r : Run) (fetched : List Fragment) :
    Prop where
  received : r.tally.received = fetched.length
  bytes : r.tally.bytes = (fetched.map Fragment.size).sum
  perm : (fetched ++ r.workers.flatMap (Worker.unfetched feed)).Perm (parts.flatMap feed.brings)

theorem fetched_start (s : Settings) (feed : Feed) (parts : List Request) :
    (start s feed parts).Fetched feed parts [] := by
  refine ⟨rfl, rfl, ?_⟩
  rw [workers_start, List.flatMap_map]
  exact .refl _

/-- A worker receives some of what it had to receive. -/
theorem Fetched.setWorker {fetched : List Fragment} (h : r.Fetched feed parts fetched) {i : Nat}
    {old w : Worker} (hold : r.worker? i = some old) (more : List Fragment) {permits : Nat}
    {handoff : Handoff} {tally : Tally}
    (hreceived : tally.received = r.tally.received + more.length)
    (hbytes : tally.bytes = r.tally.bytes + (more.map Fragment.size).sum)
    (hperm : (more ++ w.unfetched feed).Perm (old.unfetched feed)) :
    ({ r with permits, handoff, tally }.setWorker i w).Fetched feed parts (fetched ++ more) := by
  obtain ⟨before, after, hsplit, hset⟩ := workers_split hold
  have hworkers : (r.setWorker i w).workers = before ++ w :: after :=
    (workers_setWorker r i w).trans (hset w)
  refine ⟨?_, ?_, ?_⟩
  · rw [List.length_append, ← h.received]
    exact hreceived
  · rw [List.map_append, List.sum_append, ← h.bytes]
    exact hbytes
  · refine List.Perm.trans ?_ h.perm
    show (fetched ++ more ++ (r.setWorker i w).workers.flatMap (Worker.unfetched feed)).Perm _
    rw [hworkers, hsplit]
    rw [List.perm_iff_count] at hperm ⊢
    intro f
    have hcount := hperm f
    simp only [List.count_append, List.flatMap_append, List.flatMap_cons] at hcount ⊢
    omega

/-- The time has not run out, and as long as no failure was heard of, all that was received is
accounted for. -/
structure Tracked (o : Grouping.Options) (feed : Feed) (parts : List Request) (r : Run) : Prop where
  orderly : r.Orderly o feed parts
  fetched : r.failure = none → ∃ fetched, r.Fetched feed parts fetched

theorem Tracked.step (h : r.Tracked o feed parts) {a : Action} (ha : a.isExpiry = false)
    (hs : Step r a r') : r'.Tracked o feed parts := by
  have horderly := h.orderly
  refine ⟨horderly.step ha hs, fun hnone => ?_⟩
  have hearlier : r.failure = none := by
    cases hs with
    | failed => cases hnone
    | _ => exact hnone
  obtain ⟨fetched, hf⟩ := h.fetched hearlier
  -- What a worker does without receiving anything.
  have hmove {i : Nat} {old w : Worker} (hw : r.worker? i = some old) {permits : Nat}
      {handoff : Handoff} {tally : Tally} (hreceived : tally.received = r.tally.received)
      (hbytes : tally.bytes = r.tally.bytes) (hsame : w.unfetched feed = old.unfetched feed) :
      ∃ fetched, ({ r with permits, handoff, tally }.setWorker i w).Fetched feed parts fetched :=
    ⟨_, hf.setWorker hw [] hreceived hbytes (.of_eq hsame)⟩
  cases hs with
  | opened hw _ hstream =>
    rw [horderly.feed_eq] at hstream
    exact hmove hw rfl rfl (Feed.brings_of_ok hstream).symm
  | unopened hw _ hstream =>
    rw [horderly.feed_eq] at hstream
    exact hmove hw rfl rfl (Feed.brings_of_error hstream).symm
  | asked hw | exhausted hw | broke hw | offered hw | delivered hw => exact hmove hw rfl rfl rfl
  | yielded hw => exact ⟨_, hf.setWorker hw [_] rfl rfl (.refl _)⟩
  | stopped _ hc | brokenOff hc =>
    rw [horderly.uncancelled] at hc
    cases hc
  | refused hw hshut => exact absurd (horderly.open_of_worker? hw rfl) hshut
  | aborted hw haborting =>
    rw [horderly.aborting, hearlier] at haborting
    cases haborting
  | failed => cases hnone
  | @joined i =>
    refine ⟨fetched, hf.received, hf.bytes, ?_⟩
    rw [workers_join]
    exact hf.perm
  | closed | found | idled | drained | concluded =>
    exact ⟨fetched, hf.received, hf.bytes, hf.perm⟩
  | cancelled | cut => cases ha

theorem Tracked.play {script : Script} (hs : script.Timely) (h : r.Tracked o feed parts) :
    (r.play script).Tracked o feed parts :=
  play_preserves (Q := fun a => a.isExpiry = false) (fun h ha hs => h.step ha hs) hs h

theorem tracked_start (s : Settings) (feed : Feed) (parts : List Request) :
    (start s feed parts).Tracked s.grouping feed parts :=
  ⟨orderly_start s feed parts, fun _ => ⟨[], fetched_start s feed parts⟩⟩

/-! ## Runs with a grouping for their result -/

/-- The parts were completed, and each of the fragments was received once and none rejected, in no
fewer batches than it takes and none of them empty. -/
structure Counted (size : Nat) (parts : List Request) (fs : List Fragment) (r : Run) : Prop where
  completed : r.tally.completed = parts.length
  received : r.tally.received = fs.length
  bytes : r.tally.bytes = (fs.map Fragment.size).sum
  rejected : r.collector.rejected = 0
  le_batches : runsNeeded fs.length size ≤ r.collector.batches
  batches_le : r.collector.batches ≤ fs.length

theorem counted_of_ok {s : Settings} (hs : s.InBounds) (feed : Feed) (parts : List Request)
    {script : Script} (htimely : script.Timely) {g : Grouping}
    (hr : ((start s feed parts).play script).result = some (.ok g)) :
    ((start s feed parts).play script).Counted s.streams.batchSize parts
      (parts.flatMap feed.brings) := by
  have htracked := (tracked_start s feed parts).play htimely
  have horderly := htracked.orderly
  have hbalanced := (balanced_start s hs.streams feed parts).play script
  have hhanded := (handed_start s hs.batchSize feed parts).play script
  obtain ⟨hworkers, -, hkeeps⟩ := horderly.result_ok hr
  have hnone : ((start s feed parts).play script).failure = none := by
    cases hf : ((start s feed parts).play script).failure with
    | none => rfl
    | some fault => cases horderly.result_of_some hf hr
  obtain ⟨fetched, hfetched⟩ := htracked.fetched hnone
  have hall : fetched.Perm (parts.flatMap feed.brings) := by
    have hperm := hfetched.perm
    have hnothing : ((start s feed parts).play script).workers.flatMap (Worker.unfetched feed) =
        [] := by
      rw [hworkers, List.flatMap_eq_nil_iff]
      intro w hw
      rw [List.eq_of_mem_replicate hw]
      rfl
    rwa [hnothing, List.append_nil] at hperm
  have hcollected : ((start s feed parts).play script).collector.result = .ok g := by
    obtain ⟨-, -, hverdict⟩ := horderly.result _ hr
    rw [verdict, hnone] at hverdict
    exact hverdict.symm
  obtain ⟨hrejected, hle, hge⟩ := hhanded.batches_of_ok hs.batchSize hcollected
  rw [hkeeps.fragments] at hle hge
  refine ⟨?_, ?_, ?_, hrejected, hle, hge⟩
  · rw [hbalanced.completed, hworkers, List.countP_replicate]
    rfl
  · rw [hfetched.received, hall.length_eq]
  · rw [hfetched.bytes, (hall.map Fragment.size).sum_eq]

end Run

end SeriesTable
