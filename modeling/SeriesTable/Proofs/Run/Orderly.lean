import SeriesTable.Proofs.Collector.Batches
import SeriesTable.Proofs.Lists
import SeriesTable.Proofs.Request.Plan
import SeriesTable.Proofs.Run.Balance

/-
  Runs in which the time does not run out. `Orderly` is the invariant, whatever streams the parts
  have and whatever the order of the actions. A worker is always somewhere in its own part's stream
  (`Worker.Serves`). As long as the supervisor has heard of no failure, no worker is broken off and
  no fragment is lost: what was polled and what is outstanding make up the streams of all parts. The
  hand-off is shut only when all workers are joined, so no push is refused. A result is therefore
  the fault of a stream (`Orderly.result_of_some`) or what the collector makes of all fragments of
  all streams (`Orderly.result_of_none`).
-/

namespace SeriesTable

open Grouping (Compatible Keeps Refusal)

/-! ## Streams -/

namespace Feed

/-- The fragments that the stream for a part brings. -/
def brings (feed : Feed) (part : Request) : List Fragment :=
  match feed.stream part with
  | .ok s => s.fragments
  | .error _ => []

/-- The stream for a part is opened and comes to its end. -/
def Exhausts (feed : Feed) (part : Request) : Prop :=
  ∃ fs, feed.stream part = .ok ⟨fs, .exhausted⟩

/-- The stream for a part cannot be opened, or it breaks. -/
def Fails (feed : Feed) (part : Request) (fault : Fault) : Prop :=
  feed.stream part = .error fault ∨ ∃ fs, feed.stream part = .ok ⟨fs, .broken fault⟩

/-- The stream for a part does not go on for ever without yielding, if it can be opened. -/
def Ends (feed : Feed) (part : Request) : Prop :=
  ∀ fs, feed.stream part ≠ .ok ⟨fs, .never⟩

variable {feed : Feed} {part : Request}

theorem Exhausts.not_fails (h : feed.Exhausts part) (fault : Fault) : ¬ feed.Fails part fault := by
  obtain ⟨fs, hfs⟩ := h
  rintro (herror | ⟨ds, hbroken⟩)
  · rw [hfs] at herror
    cases herror
  · rw [hfs] at hbroken
    cases hbroken

theorem Exhausts.ends (h : feed.Exhausts part) : feed.Ends part := by
  obtain ⟨fs, hfs⟩ := h
  intro ds hnever
  rw [hfs] at hnever
  cases hnever

theorem exhausts_stored (fs : List Fragment) (delay : Nat) (part : Request) :
    (stored fs delay none).Exhausts part := ⟨_, stream_stored fs delay part⟩

theorem brings_of_ok {s : Stream} (h : feed.stream part = .ok s) :
    feed.brings part = s.fragments := by
  rw [brings, h]

theorem brings_of_error {fault : Fault} (h : feed.stream part = .error fault) :
    feed.brings part = [] := by
  rw [brings, h]

/-- A stream that comes to its end has brought all fragments of its part. -/
theorem brings_of_exhausts {fs : List Fragment} {delay : Nat} {failing : Option String}
    {part : Request} (h : (stored fs delay failing).Exhausts part) :
    (stored fs delay failing).brings part = served part fs := by
  obtain ⟨ds, hds⟩ := h
  have hbreaking : breaking failing (served part fs) = ⟨ds, .exhausted⟩ := Except.ok.inj hds
  rw [brings_of_ok hds]
  unfold breaking at hbreaking
  dsimp only at hbreaking
  split at hbreaking
  · rename_i hdrop
    obtain ⟨rfl, -⟩ := Stream.mk.inj hbreaking
    exact (List.takeWhile_prefix _).eq_of_length_le (List.drop_eq_nil_iff.mp hdrop)
  · cases hbreaking

end Feed

namespace Worker

/-- The worker is somewhere in the part's stream, or has come to its end. -/
def Serves (feed : Feed) (part : Request) : Worker → Prop
  | waiting p => p = part
  | ready s | asking s | holding _ s | sending _ s => ∃ fs, feed.stream part = .ok ⟨fs, s.ending⟩
  | finished => feed.Exhausts part
  | failed fault => feed.Fails part fault
  | stopped => False
  | aborted => True

/-- The fragments that the worker has still to bring into the hand-off. -/
def outstanding (feed : Feed) : Worker → List Fragment
  | waiting part => feed.brings part
  | ready s | asking s => s.fragments
  | holding f s | sending f s => f :: s.fragments
  | finished | failed _ | stopped | aborted => []

end Worker

namespace Run

/-- The fragments that are not polled yet: those in the hand-off, then those of the workers. -/
def outstanding (r : Run) : List Fragment :=
  r.handoff.queue ++ r.workers.flatMap (Worker.outstanding r.feed)

/-- The time has not run out in the fetching of the parts from the feed. -/
structure Orderly (o : Grouping.Options) (feed : Feed) (parts : List Request) (r : Run) :
    Prop where
  feed_eq : r.feed = feed
  uncancelled : r.cancelled = false
  aborting : r.aborting = r.failure.isSome
  serves : List.Forall₂ (fun part w => w.Serves feed part) parts r.workers
  settled : ∀ t ∈ r.tasks, t.joined = true → t.worker.isSettled = true
  heard : r.failure = none → ∀ t ∈ r.tasks, t.worker ≠ .aborted ∧
    (t.joined = true → t.worker = .finished)
  failed : ∀ fault, r.failure = some fault → .failed fault ∈ r.workers
  handoff : (r.handoff.active = true ∧ r.handoff.reachable = true) ∨ r.AllJoined
  gathered : r.failure = none → ∃ polled, Collector.Gathered o r.collector polled ∧
    (polled ++ r.outstanding).Perm (parts.flatMap feed.brings)
  ended : r.collecting = false → r.AllJoined ∧ r.handoff.queue = [] ∧
    (r.collector.fault = none → r.collector.pending = [])
  result : ∀ res, r.result = some res → r.AllJoined ∧ r.collecting = false ∧ res = r.verdict

variable {o : Grouping.Options} {feed : Feed} {parts : List Request} {r r' : Run}

theorem workers_start (s : Settings) (feed : Feed) (parts : List Request) :
    (start s feed parts).workers = parts.map .waiting := by
  show (parts.map fun part => (⟨.waiting part, false⟩ : Task)).map Task.worker = _
  rw [List.map_map]
  rfl

theorem orderly_start (s : Settings) (feed : Feed) (parts : List Request) :
    (start s feed parts).Orderly s.grouping feed parts where
  feed_eq := rfl
  uncancelled := rfl
  aborting := rfl
  serves := by
    rw [workers_start, List.forall₂_map_right_iff, List.forall₂_same]
    exact fun part _ => rfl
  settled t ht := by
    obtain ⟨part, -, rfl⟩ := List.mem_map.mp ht
    exact fun hj => by cases hj
  heard _ t ht := by
    obtain ⟨part, -, rfl⟩ := List.mem_map.mp ht
    exact ⟨by simp, fun hj => by cases hj⟩
  failed fault hf := by cases hf
  handoff := .inl ⟨rfl, rfl⟩
  gathered _ := by
    refine ⟨[], Collector.gathered_make .., ?_⟩
    rw [outstanding, workers_start, List.flatMap_map]
    exact .refl _
  ended hc := by cases hc
  result res hr := by cases hr

/-! ## Workers -/

/-- The worker among the workers, and the workers with another one in its place. -/
theorem workers_split {i : Nat} {w : Worker} (h : r.worker? i = some w) :
    ∃ before after, r.workers = before ++ w :: after ∧
      ∀ v, r.workers.set i v = before ++ v :: after := by
  rw [worker?_eq] at h
  obtain ⟨hi, rfl⟩ := List.getElem?_eq_some_iff.mp h
  refine ⟨r.workers.take i, r.workers.drop (i + 1), ?_, fun v => ?_⟩
  · rw [List.getElem_cons_drop, List.take_append_drop]
  · exact List.set_eq_take_append_cons_drop.trans (if_pos hi)

namespace Orderly

theorem serves_of_worker? (h : r.Orderly o feed parts) {i : Nat} {w : Worker}
    (hw : r.worker? i = some w) : ∃ part, parts[i]? = some part ∧ w.Serves feed part :=
  forall₂_getElem? h.serves ((r.worker?_eq i).symm.trans hw)

/-- While a worker is at work, it is not joined. -/
theorem unjoined (h : r.Orderly o feed parts) {i : Nat} {t : Task} (ht : r.tasks[i]? = some t)
    (hat : t.worker.isSettled = false) : t.joined = false := by
  cases hj : t.joined with
  | false => rfl
  | true =>
    rw [h.settled t (List.mem_of_getElem? ht) hj] at hat
    cases hat

theorem not_allJoined (h : r.Orderly o feed parts) {i : Nat} {w : Worker}
    (hw : r.worker? i = some w) (hat : w.isSettled = false) : ¬ r.AllJoined := by
  obtain ⟨t, ht, rfl⟩ := Option.map_eq_some_iff.mp hw
  intro hall
  have hj := h.unjoined ht hat
  rw [hall t (List.mem_of_getElem? ht)] at hj
  cases hj

/-- While a worker is at work, the hand-off is not shut. -/
theorem open_of_worker? (h : r.Orderly o feed parts) {i : Nat} {w : Worker}
    (hw : r.worker? i = some w) (hat : w.isSettled = false) :
    r.handoff.active = true ∧ r.handoff.reachable = true :=
  h.handoff.resolve_right (h.not_allJoined hw hat)

/-- A worker goes on in its part's stream, or is broken off after a failure. Until there is one, the
worker and the hand-off together hold what they held. -/
theorem move (h : r.Orderly o feed parts) {i : Nat} {old : Worker} (hold : r.worker? i = some old)
    (hat : old.isSettled = false) {new : Worker} {permits : Nat} {handoff : Handoff} {tally : Tally}
    (hserves : ∀ part, old.Serves feed part → new.Serves feed part)
    (hsame : handoff.active = r.handoff.active ∧ handoff.reachable = r.handoff.reachable)
    (hheard : r.failure = none → new ≠ .aborted ∧ (handoff.queue ++ new.outstanding feed).Perm
      (r.handoff.queue ++ old.outstanding feed)) :
    ({ r with permits, handoff, tally }.setWorker i new).Orderly o feed parts := by
  have hnot := h.not_allJoined hold hat
  have hworkers : (r.setWorker i new).workers = r.workers.set i new := workers_setWorker r i new
  have hunjoined : ∀ t, r.tasks[i]? = some t → t.joined = false := by
    intro t ht
    refine h.unjoined ht ?_
    rw [worker?, ht] at hold
    rw [Option.some.inj hold]
    exact hat
  obtain ⟨before, after, hsplit, hset⟩ := workers_split hold
  refine ⟨h.feed_eq, h.uncancelled, h.aborting, ?_, ?_, ?_, ?_, ?_, ?_, ?_, ?_⟩
  · show List.Forall₂ _ parts (r.setWorker i new).workers
    rw [hworkers]
    exact forall₂_set h.serves ((worker?_eq r i).symm.trans hold) hserves
  · intro d hd
    rcases mem_modify hd with hd | ⟨t, ht, rfl⟩
    · exact h.settled d hd
    · intro hj
      rw [hunjoined t ht] at hj
      cases hj
  · intro hf d hd
    rcases mem_modify hd with hd | ⟨t, ht, rfl⟩
    · exact h.heard hf d hd
    · refine ⟨(hheard hf).1, fun hj => ?_⟩
      rw [hunjoined t ht] at hj
      cases hj
  · intro fault hf
    show _ ∈ (r.setWorker i new).workers
    have hmem := h.failed fault hf
    rw [hsplit] at hmem
    rw [hworkers, hset]
    rcases List.mem_append.mp hmem with hmem | hmem
    · exact List.mem_append_left _ hmem
    · rcases List.mem_cons.mp hmem with rfl | hmem
      · cases hat
      · exact List.mem_append_right _ (List.mem_cons_of_mem _ hmem)
  · show (handoff.active = true ∧ handoff.reachable = true) ∨ _
    rw [hsame.1, hsame.2]
    exact .inl (h.handoff.resolve_right hnot)
  · intro hf
    obtain ⟨polled, hgathered, hall⟩ := h.gathered hf
    refine ⟨polled, hgathered, List.Perm.trans ?_ hall⟩
    have hperm := (hheard hf).2
    show (polled ++ (handoff.queue ++
      (r.setWorker i new).workers.flatMap (Worker.outstanding r.feed))).Perm _
    rw [hworkers, hset, outstanding, hsplit, h.feed_eq]
    rw [List.perm_iff_count] at hperm ⊢
    intro f
    have hcount := hperm f
    simp only [List.count_append, List.flatMap_append, List.flatMap_cons] at hcount ⊢
    omega
  · exact fun hc => absurd (h.ended hc).1 hnot
  · exact fun res hres => absurd (h.result res hres).1 hnot

theorem opened (h : r.Orderly o feed parts) {i : Nat} {part : Request} {s : Stream}
    (hw : r.worker? i = some (.waiting part)) (hs : r.feed.stream part = .ok s) :
    ({ r with permits := r.permits - 1 }.setWorker i (.ready s)).Orderly o feed parts := by
  rw [h.feed_eq] at hs
  refine h.move hw rfl ?_ ⟨rfl, rfl⟩ fun _ => ⟨by simp, ?_⟩
  · rintro _ rfl
    exact ⟨s.fragments, hs⟩
  · show (_ ++ s.fragments).Perm (_ ++ feed.brings part)
    rw [Feed.brings_of_ok hs]

theorem unopened (h : r.Orderly o feed parts) {i : Nat} {part : Request} {fault : Fault}
    (hw : r.worker? i = some (.waiting part)) (hs : r.feed.stream part = .error fault) :
    (r.countStreamError.setWorker i (.failed fault)).Orderly o feed parts := by
  rw [h.feed_eq] at hs
  refine h.move hw rfl ?_ ⟨rfl, rfl⟩ fun _ => ⟨by simp, ?_⟩
  · rintro _ rfl
    exact .inl hs
  · show (_ ++ []).Perm (_ ++ feed.brings part)
    rw [Feed.brings_of_error hs]

theorem delivered (h : r.Orderly o feed parts) {i : Nat} {f : Fragment} {rest : Stream}
    (hw : r.worker? i = some (.sending f rest)) :
    ({ r with handoff := { r.handoff with
        queue := r.handoff.queue ++ [f]
        senders := r.handoff.senders - 1 } }.setWorker i (.ready rest)).Orderly o feed parts := by
  refine h.move hw rfl (fun _ => id) ⟨rfl, rfl⟩ fun _ => ⟨by simp, ?_⟩
  show (r.handoff.queue ++ [f] ++ rest.fragments).Perm (r.handoff.queue ++ f :: rest.fragments)
  rw [List.append_assoc]
  exact .refl _

/-- A worker is broken off only after a failure. -/
theorem aborted (h : r.Orderly o feed parts) {i : Nat} {w : Worker} (hw : r.worker? i = some w)
    (ha : r.aborting = true) (hat : w.isSettled = false) :
    ({ r with handoff := { r.handoff with
        senders := r.handoff.senders - w.isSending.toNat } }.setWorker i .aborted).Orderly
      o feed parts := by
  have hfailed : r.failure ≠ none := by
    intro hf
    rw [h.aborting, hf] at ha
    cases ha
  exact h.move hw hat (fun _ _ => trivial) ⟨rfl, rfl⟩ fun hf => absurd hf hfailed

/-! ## The supervisor and the collector -/

/-- A run that differs in what the supervisor has heard: of one more worker, and perhaps of the
first failure. -/
theorem hear (h : r.Orderly o feed parts) {i : Nat} {w : Worker}
    (ht : r.tasks[i]? = some ⟨w, false⟩) (hsettled : w.isSettled = true)
    (hresult : r.result = none) {failure : Option Fault}
    (hnone : failure = none → r.failure = none ∧ w = .finished)
    (hsome : ∀ fault, failure = some fault → r.failure = some fault ∨ w = .failed fault) :
    { r.join i with failure, aborting := failure.isSome }.Orderly o feed parts := by
  have hworkers := workers_join r i
  have hmem : ∀ t ∈ (r.join i).tasks, t ∈ r.tasks ∨ t = ⟨w, true⟩ := by
    intro d hd
    rcases mem_modify hd with hd | ⟨t, ht', rfl⟩
    · exact .inl hd
    · obtain rfl := Option.some.inj (ht.symm.trans ht')
      exact .inr rfl
  have hall : r.AllJoined → (r.join i).AllJoined := by
    intro hall t ht
    rcases hmem t ht with ht | rfl
    · exact hall t ht
    · rfl
  refine ⟨h.feed_eq, h.uncancelled, rfl, ?_, ?_, ?_, ?_, h.handoff.imp_right hall, ?_, ?_, ?_⟩
  · show List.Forall₂ _ parts (r.join i).workers
    rw [hworkers]
    exact h.serves
  · intro t ht
    rcases hmem t ht with ht | rfl
    · exact h.settled t ht
    · exact fun _ => hsettled
  · intro hf t htask
    obtain ⟨hfailure, rfl⟩ := hnone hf
    rcases hmem t htask with htask | rfl
    · exact h.heard hfailure t htask
    · exact ⟨by simp, fun _ => rfl⟩
  · intro fault hf
    show _ ∈ (r.join i).workers
    rw [hworkers]
    rcases hsome fault hf with hf | rfl
    · exact h.failed fault hf
    · exact List.mem_map.mpr ⟨_, List.mem_of_getElem? ht, rfl⟩
  · intro hf
    obtain ⟨polled, hgathered, hperm⟩ := h.gathered (hnone hf).1
    refine ⟨polled, hgathered, ?_⟩
    show (polled ++ (r.handoff.queue ++
      (r.join i).workers.flatMap (Worker.outstanding r.feed))).Perm _
    rw [hworkers]
    exact hperm
  · intro hc
    obtain ⟨hjoined, hrest⟩ := h.ended hc
    exact ⟨hall hjoined, hrest⟩
  · intro res hres
    have hres : r.result = some res := hres
    rw [hresult] at hres
    cases hres

theorem failed_joined (h : r.Orderly o feed parts) {i : Nat} {fault : Fault}
    (ht : r.tasks[i]? = some ⟨.failed fault, false⟩) (hr : r.result = none) :
    { r.join i with failure := some fault, aborting := true }.Orderly o feed parts := by
  refine @hear _ _ _ _ h _ _ ht rfl hr (some fault) (fun hf => by cases hf) ?_
  intro d hd
  cases hd
  exact .inr rfl

/-- Without a failure a settled worker has finished: none is broken off, and the fault of a failed
one would have been taken. -/
theorem joined (h : r.Orderly o feed parts) {i : Nat} {w : Worker}
    (ht : r.tasks[i]? = some ⟨w, false⟩) (hr : r.result = none) (hsettled : w.isSettled = true)
    (hother : ∀ fault, w = .failed fault → r.failure ≠ none) : (r.join i).Orderly o feed parts := by
  have hfinished : r.failure = none → w = .finished := by
    intro hf
    obtain ⟨part, -, hserves⟩ := h.serves_of_worker? (i := i) (w := w) (by rw [worker?, ht]; rfl)
    cases w with
    | finished => rfl
    | failed fault => exact absurd hf (hother fault rfl)
    | aborted => exact absurd rfl (h.heard hf _ (List.mem_of_getElem? ht)).1
    | stopped => exact hserves.elim
    | waiting _ | ready _ | asking _ | holding _ _ | sending _ _ => cases hsettled
  have hheard := h.hear ht hsettled hr (fun hf => ⟨hf, hfinished hf⟩) fun _ => .inl
  rwa [← h.aborting] at hheard

/-- The collector takes what a poll finds out of the hand-off. It ends when the hand-off is drained,
all workers joined. -/
theorem collected (h : r.Orderly o feed parts) (hc : r.collecting = true) (p : Handoff.Poll)
    {queue : List Fragment} (hfound : r.handoff.queue = p.found ++ queue) {collecting : Bool}
    (hend : collecting = false → r.AllJoined ∧ queue = [] ∧ p = .drained) :
    { r with
      handoff := { r.handoff with queue }
      collector := r.collector.step p
      collecting }.Orderly o feed parts := by
  refine { h with gathered := fun hf => ?_, ended := fun hcollecting => ?_, result := ?_ }
  · obtain ⟨polled, hgathered, hperm⟩ := h.gathered hf
    refine ⟨polled ++ p.found, hgathered.step p, ?_⟩
    rw [outstanding, hfound] at hperm
    show (polled ++ p.found ++ (queue ++ r.workers.flatMap (Worker.outstanding r.feed))).Perm _
    rw [List.append_assoc, ← List.append_assoc p.found]
    exact hperm
  · obtain ⟨hall, hqueue, rfl⟩ := hend hcollecting
    exact ⟨hall, hqueue, Collector.pending_step_drained⟩
  · intro res hres
    rw [(h.result res hres).2.1] at hc
    cases hc

end Orderly

/-! ## Whole runs -/

/-- The action is that the time limit passes. -/
def Action.isExpiry : Action → Bool
  | expire .. => true
  | _ => false

/-- The time limit passes at no place of the script. -/
def Script.Timely (script : Script) : Prop := ∀ s ∈ script.steps, s.2.isExpiry = false

instance (script : Script) : Decidable script.Timely :=
  inferInstanceAs (Decidable (∀ s ∈ script.steps, _ = _))

namespace Orderly

theorem step (h : r.Orderly o feed parts) {a : Action} (ha : a.isExpiry = false)
    (hs : Step r a r') : r'.Orderly o feed parts := by
  cases hs with
  | opened hw _ hstream => exact h.opened hw hstream
  | unopened hw _ hstream => exact h.unopened hw hstream
  | asked hw | yielded hw | exhausted hw | offered hw =>
    exact h.move hw rfl (fun _ => id) ⟨rfl, rfl⟩ fun _ => ⟨by simp, .refl _⟩
  | stopped _ hc | brokenOff hc =>
    rw [h.uncancelled] at hc
    cases hc
  | broke hw => exact h.move hw rfl (fun _ => .inr) ⟨rfl, rfl⟩ fun _ => ⟨by simp, .refl _⟩
  | refused hw hshut => exact absurd (h.open_of_worker? hw rfl) hshut
  | delivered hw => exact h.delivered hw
  | aborted hw haborting hat => exact h.aborted hw haborting hat
  | failed ht hr => exact h.failed_joined ht hr
  | joined ht hr hsettled hother => exact h.joined ht hr hsettled hother
  | closed _ hall => exact { h with handoff := .inr hall }
  | @found f rest hc hq => exact h.collected hc (.fragment f) hq fun hend => by cases hend
  | idled hc hq => exact h.collected hc .idle rfl fun hend => by cases hend
  | drained hc hq hshut =>
    have hall : r.AllJoined := h.handoff.resolve_left fun hopen => hshut (.inl hopen.2)
    exact h.collected hc .drained rfl fun _ => ⟨hall, hq, rfl⟩
  | concluded _ hall hc =>
    exact { h with result := fun res hres => ⟨hall, hc, (Option.some.inj hres).symm⟩ }
  | cancelled | cut => cases ha

theorem play {script : Script} (hs : script.Timely) (h : r.Orderly o feed parts) :
    (r.play script).Orderly o feed parts :=
  play_preserves (Q := fun a => a.isExpiry = false) (fun h ha hs => h.step ha hs) hs h

/-! ## Results -/

variable {res : Except Fault Grouping}

/-- The failure is the fault of a worker, and of its part's stream. -/
theorem failure_cases (h : r.Orderly o feed parts) {fault : Fault} (hf : r.failure = some fault) :
    ∃ i part, parts[i]? = some part ∧ r.worker? i = some (.failed fault) ∧
      feed.Fails part fault := by
  obtain ⟨i, hi⟩ := List.getElem?_of_mem (h.failed fault hf)
  have hw := (r.worker?_eq i).trans hi
  obtain ⟨part, hpart, hfails⟩ := h.serves_of_worker? hw
  exact ⟨i, part, hpart, hw, hfails⟩

/-- If no stream fails, no failure is heard of. -/
theorem failure_eq_none (h : r.Orderly o feed parts)
    (hsound : ∀ part ∈ parts, ∀ fault, ¬ feed.Fails part fault) : r.failure = none := by
  cases hf : r.failure with
  | none => rfl
  | some fault =>
    obtain ⟨i, part, hpart, -, hfails⟩ := h.failure_cases hf
    exact absurd hfails (hsound part (List.mem_of_getElem? hpart) fault)

/-- Without a failure, workers that are joined have come to the ends of their streams. -/
theorem workers_of_allJoined (h : r.Orderly o feed parts) (hf : r.failure = none)
    (hall : r.AllJoined) : r.workers = List.replicate parts.length .finished := by
  refine List.eq_replicate_iff.mpr ⟨h.serves.length_eq.symm, fun w hw => ?_⟩
  obtain ⟨t, ht, rfl⟩ := List.mem_map.mp hw
  exact (h.heard hf t ht).2 (hall t ht)

theorem exhausts_of_allJoined (h : r.Orderly o feed parts) (hf : r.failure = none)
    (hall : r.AllJoined) : ∀ part ∈ parts, feed.Exhausts part := by
  intro part hpart
  have hserves := h.serves
  rw [h.workers_of_allJoined hf hall] at hserves
  obtain ⟨i, hi⟩ := List.getElem?_of_mem hpart
  obtain ⟨w, hw, hserves⟩ := forall₂_getElem? hserves.flip hi
  rw [List.eq_of_mem_replicate (List.mem_of_getElem? hw)] at hserves
  exact hserves

/-- A result after a failure is its fault. -/
theorem result_of_some (h : r.Orderly o feed parts) {fault : Fault} (hf : r.failure = some fault)
    (hr : r.result = some res) : res = .error fault := by
  obtain ⟨-, -, rfl⟩ := h.result res hr
  rw [verdict, hf]

/-- A result without a failure is the grouping of all fragments of all streams, or the fault of one
that cannot be taken in. -/
theorem result_of_none (h : r.Orderly o feed parts) (hf : r.failure = none)
    (hr : r.result = some res) :
    if Compatible (parts.flatMap feed.brings) then
      ∃ g, res = .ok g ∧ Keeps o g (parts.flatMap feed.brings)
    else ∃ fault, res = .error fault ∧ Refusal (parts.flatMap feed.brings) fault := by
  obtain ⟨hall, hcollecting, rfl⟩ := h.result res hr
  obtain ⟨-, hqueue, hpending⟩ := h.ended hcollecting
  obtain ⟨polled, hgathered, hperm⟩ := h.gathered hf
  have hnothing : r.outstanding = [] := by
    rw [outstanding, hqueue, List.nil_append, List.flatMap_eq_nil_iff]
    intro w hw
    rw [h.workers_of_allJoined hf hall] at hw
    rw [List.eq_of_mem_replicate hw]
    rfl
  rw [hnothing, List.append_nil] at hperm
  have hresult := hgathered.result hpending
  rw [verdict, hf]
  by_cases hc : Compatible (parts.flatMap feed.brings)
  · rw [if_pos ((Grouping.compatible_perm_iff hperm).mpr hc)] at hresult
    obtain ⟨g, hok, hkeeps⟩ := hresult
    rw [if_pos hc]
    exact ⟨g, hok, hkeeps.perm hperm⟩
  · rw [if_neg (mt (Grouping.compatible_perm_iff hperm).mp hc)] at hresult
    obtain ⟨fault, herror, hrefusal⟩ := hresult
    rw [if_neg hc]
    exact ⟨fault, herror, hrefusal.perm hperm⟩

end Orderly

end Run

end SeriesTable
