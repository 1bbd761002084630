import SeriesTable.Proofs.Run.Progress
import SeriesTable.Proofs.Settings.Bounds

/-
  What comes of a request (`all_or_nothing`). A run in which the time limit passes before there is a
  result is over at once: its result is that the time ran out, and no action changes a result
  (`play_result`). So a run is orderly or timed out at every moment (`orderly_or_timedOut`), and a
  run that has a grouping for its result was orderly to the end: every worker finished, and the
  grouping is that of all fragments of all streams. Of the faults that an orderly run may meet, that
  of a stream comes before that of the collector.
-/

namespace SeriesTable.Run

open Grouping (Compatible Keeps Refusal)

variable {o : Grouping.Options} {feed : Feed} {parts : List Request} {n : Nat} {r r' : Run}
  {res : Except Fault Grouping}

/-! ## Results stay -/

theorem step_result (hr : r.result = some res) {a : Action} (hs : Step r a r') :
    r'.result = some res := by
  cases hs with
  | opened | unopened | asked | stopped | yielded | exhausted | broke | offered | refused
  | delivered | aborted | found | idled | drained | brokenOff => exact hr
  | failed _ hnone | joined _ hnone | closed hnone | concluded hnone | cancelled hnone
  | cut hnone =>
    rw [hnone] at hr
    cases hr

theorem play_result (hr : r.result = some res) (script : Script) :
    (r.play script).result = some res :=
  play_preserves (P := fun r => r.result = some res) (Q := fun _ => True)
    (fun hr _ hs => step_result hr hs) (fun _ _ => trivial) hr

/-! ## The time limit -/

/-- The result is that the time ran out. -/
def TimedOut (r : Run) : Prop :=
  ∃ elapsed completed total, r.result = some (.error (.timedOut elapsed completed total))

theorem act_expire_result (hr : r.result = none) (mode : Settings.CancelMode) (elapsed : Nat) :
    (r.act (.expire mode elapsed)).result =
      some (.error (.timedOut elapsed r.tally.completed r.tasks.length)) := by
  have hs : r.step? (.expire mode elapsed) = r.expire? mode elapsed := rfl
  rw [act, hs, expire?, hr]
  cases mode <;> rfl

theorem orderly_or_timedOut (s : Settings) (feed : Feed) (parts : List Request) (script : Script) :
    ((start s feed parts).play script).Orderly s.grouping feed parts ∨
      ((start s feed parts).play script).TimedOut := by
  refine play_preserves (P := fun r => r.Orderly s.grouping feed parts ∨ r.TimedOut)
    (Q := fun _ => True) ?_ (fun _ _ => trivial) (.inl (orderly_start s feed parts))
  intro r r' a h _ hs
  rcases h with h | ⟨elapsed, completed, total, hr⟩
  · cases ha : a.isExpiry with
    | false => exact .inl (h.step ha hs)
    | true =>
      cases hs with
      | cancelled | cut => exact .inr ⟨_, _, _, rfl⟩
      | opened | unopened | asked | stopped | yielded | exhausted | broke | offered | refused
      | delivered | aborted | failed | joined | closed | found | idled | drained | concluded
      | brokenOff => cases ha
  · exact .inr ⟨elapsed, completed, total, step_result hr hs⟩

/-- Whatever is done afterwards, a run without a result in which the time limit passes has timed
out, with the workers counted that had finished by then. -/
theorem Balanced.play_expire (h : r.Balanced n) (hr : r.result = none)
    (mode : Settings.CancelMode) (elapsed : Nat) (later : Script) :
    ((r.act (.expire mode elapsed)).play later).result =
      some (.error (.timedOut elapsed (r.workers.countP Worker.isFinished) n)) := by
  rw [← h.completed, ← h.tasks]
  exact play_result (act_expire_result hr mode elapsed) later

/-! ## All or nothing -/

/-- A grouping for a result is that of all fragments of all streams, which all came to their
ends. -/
theorem Orderly.result_ok (h : r.Orderly o feed parts) {g : Grouping}
    (hr : r.result = some (.ok g)) :
    r.workers = List.replicate parts.length .finished ∧ (∀ part ∈ parts, feed.Exhausts part) ∧
      Keeps o g (parts.flatMap feed.brings) := by
  cases hf : r.failure with
  | some fault =>
    have herror := h.result_of_some hf hr
    cases herror
  | none =>
    have hall := (h.result _ hr).1
    refine ⟨h.workers_of_allJoined hf hall, h.exhausts_of_allJoined hf hall, ?_⟩
    have hresult := h.result_of_none hf hr
    split at hresult
    · obtain ⟨g', hg, hkeeps⟩ := hresult
      cases hg
      exact hkeeps
    · obtain ⟨fault, herror, -⟩ := hresult
      cases herror

/-- If a stream fails, the result is the fault of a worker, whose stream failed. -/
theorem Orderly.result_of_fails (h : r.Orderly o feed parts)
    (hfails : ∃ part ∈ parts, ∃ fault, feed.Fails part fault) (hr : r.result = some res) :
    ∃ i part fault, parts[i]? = some part ∧ feed.Fails part fault ∧
      r.worker? i = some (.failed fault) ∧ res = .error fault := by
  cases hf : r.failure with
  | some fault =>
    obtain ⟨i, part, hpart, hw, hpartfails⟩ := h.failure_cases hf
    exact ⟨i, part, fault, hpart, hpartfails, hw, h.result_of_some hf hr⟩
  | none =>
    obtain ⟨part, hpart, fault, hpartfails⟩ := hfails
    have hexhausts := h.exhausts_of_allJoined hf (h.result res hr).1 part hpart
    exact absurd hpartfails (hexhausts.not_fails fault)

/-- What a run of the parts can come to. -/
structure AllOrNothing (o : Grouping.Options) (feed : Feed) (parts : List Request)
    (script : Script) (r : Run) : Prop where
  /-- A grouping is the result only if every worker has come to the end of its stream, and then it
  is the one that the fragments of all streams give when each is added once. -/
  complete : ∀ g, r.result = some (.ok g) →
    r.workers = List.replicate parts.length .finished ∧ (∀ part ∈ parts, feed.Exhausts part) ∧
      ∀ fs : List Fragment, fs.Perm (parts.flatMap feed.brings) →
        fs.foldlM Grouping.add (.empty o) = .ok { g with parallelBatches := 0 }
  /-- Unless the time limit passes, a stream that fails makes the result the fault of a failed
  worker. -/
  failed : script.Timely → (∃ part ∈ parts, ∃ fault, feed.Fails part fault) →
    ∀ res, r.result = some res → ∃ i part fault, parts[i]? = some part ∧
      feed.Fails part fault ∧ r.worker? i = some (.failed fault) ∧ res = .error fault
  /-- Unless the time limit passes or a stream fails, it is for the fragments to have a grouping, or
  else the fault of one that fails its check or repeats another. -/
  sound : script.Timely → (∀ part ∈ parts, ∀ fault, ¬ feed.Fails part fault) →
    ∀ res, r.result = some res →
      if Compatible (parts.flatMap feed.brings) then ∃ g, res = .ok g
      else ∃ fault, res = .error fault ∧ Refusal (parts.flatMap feed.brings) fault
  /-- If the time limit passes before there is a result, that is the result, whatever is done
  afterwards. -/
  expired : r.result = none → ∀ mode elapsed later,
    ∃ completed ≤ parts.length, completed = r.workers.countP Worker.isFinished ∧
      ((r.act (.expire mode elapsed)).play later).result =
        some (.error (.timedOut elapsed completed parts.length))

/-- A request is all or nothing, whatever its streams and whatever the order of the actions. If its
streams end, what was begun can be brought to a result. -/
theorem all_or_nothing (s : Settings) (hs : s.check = .ok ()) (feed : Feed) (parts : List Request)
    (script : Script) :
    ((start s feed parts).play script).AllOrNothing s.grouping feed parts script ∧
      ((∀ part ∈ parts, feed.Ends part) → script.Timely →
        ∃ whole : Script, whole.Timely ∧ script.steps <+: whole.steps ∧
          ((start s feed parts).play whole).result.isSome = true) := by
  have hmost := (Settings.check_eq_ok_iff.mp hs).streams
  have hbalanced := balanced_start s hmost feed parts
  have horderly := orderly_start s feed parts
  refine ⟨⟨?_, ?_, ?_, ?_⟩, ?_⟩
  · intro g hr
    rcases orderly_or_timedOut s feed parts script with h | ⟨_, _, _, htimeout⟩
    · obtain ⟨hworkers, hexhausts, hkeeps⟩ := h.result_ok hr
      exact ⟨hworkers, hexhausts, fun fs hfs => hkeeps.foldlM_add hfs⟩
    · rw [htimeout] at hr
      cases hr
  · intro htimely hfails res hr
    exact (horderly.play htimely).result_of_fails hfails hr
  · intro htimely hsound res hr
    have h := horderly.play htimely
    have hresult := h.result_of_none (h.failure_eq_none hsound) hr
    by_cases hc : Compatible (parts.flatMap feed.brings)
    · rw [if_pos hc] at hresult ⊢
      obtain ⟨g, hok, -⟩ := hresult
      exact ⟨g, hok⟩
    · rwa [if_neg hc] at hresult ⊢
  · intro hr mode elapsed later
    have h := hbalanced.play script
    exact ⟨_, h.completed.symm.trans_le h.completed_le, rfl, h.play_expire hr mode elapsed later⟩
  · intro hends htimely
    obtain ⟨whole, hwhole, hprefix, -, hresult⟩ :=
      horderly.exists_continuation hends hbalanced htimely
    exact ⟨whole, hwhole, hprefix, hresult⟩

/-- One value of a source at the first instant of all. -/
def sample (source : String) : Fragment := ⟨source, .int, [.int 1], .list [0], 8⟩

/-- One fragment of each source. -/
def sampled : Feed := .opening fun part => .ok ⟨part.sources.map sample, .exhausted⟩

/-- The same fragment in every stream, and the streams break. -/
def resetting : Feed :=
  .opening fun part => .ok ⟨[sample "a"], .broken (.stream (.reset (part.sources.headD "")))⟩

/-- Two parts of one source each. -/
def twoParts : List Request := [⟨["a"], 0, 10⟩, ⟨["b"], 0, 10⟩]

/-- Both workers up to the ends of their streams of one fragment. -/
def bothFetched : Script :=
  let actions := [0, 1].flatMap fun i =>
    [.enter i, .ask i, .fetch i, .offer i, .deliver i, .poll, .poll, .ask i, .fetch i]
  ⟨actions.map fun a => (1, a), 0⟩

/-- The supervisor goes on to the result. -/
def bothJoined : Script :=
  let actions : List Action := [.join 1, .join 0, .close, .poll, .conclude]
  ⟨bothFetched.steps ++ actions.map fun a => (1, a), 0⟩

theorem all_or_nothing_twoParts :
    (∃ g, ((start {} sampled twoParts).play bothJoined).result = some (.ok g) ∧
      [sample "b", sample "a"].foldlM Grouping.add (.empty {}) =
        .ok { g with parallelBatches := 0 }) ∧
    (¬ Compatible (twoParts.flatMap resetting.brings) ∧
      ∃ source, ((start {} resetting twoParts).play bothJoined).result =
        some (.error (.stream (.reset source)))) ∧
    (((start {} sampled twoParts).play bothFetched).act (.expire .hard 5)).result =
      some (.error (.timedOut 5 2 2)) := by
  refine ⟨?_, ⟨by decide, ?_⟩, ?_⟩
  · obtain ⟨h, -⟩ := all_or_nothing {} rfl sampled twoParts bothJoined
    have hsome : ((start {} sampled twoParts).play bothJoined).result.isSome = true := by
      decide +kernel
    obtain ⟨res, hr⟩ := Option.isSome_iff_exists.mp hsome
    have hsound : ∀ part ∈ twoParts, ∀ fault, ¬ sampled.Fails part fault := by
      intro part _
      exact Feed.Exhausts.not_fails ⟨_, rfl⟩
    have hok := h.sound (by decide) hsound res hr
    rw [if_pos (by decide)] at hok
    obtain ⟨g, rfl⟩ := hok
    exact ⟨g, hr, (h.complete g hr).2.2 _ (.swap ..)⟩
  · obtain ⟨h, -⟩ := all_or_nothing {} rfl resetting twoParts bothJoined
    have hsome : ((start {} resetting twoParts).play bothJoined).result.isSome = true := by
      decide +kernel
    obtain ⟨res, hr⟩ := Option.isSome_iff_exists.mp hsome
    have hfails : ∃ part ∈ twoParts, ∃ fault, resetting.Fails part fault :=
      ⟨_, List.mem_cons_self .., _, .inr ⟨_, rfl⟩⟩
    obtain ⟨i, part, fault, -, hpart, -, rfl⟩ := h.failed (by decide) hfails res hr
    rcases hpart with herror | ⟨fs, hbroken⟩
    · cases herror
    · cases hbroken
      exact ⟨_, hr⟩
  · obtain ⟨h, -⟩ := all_or_nothing {} rfl sampled twoParts bothFetched
    obtain ⟨completed, -, hcompleted, hresult⟩ :=
      h.expired (by decide +kernel) .hard 5 ⟨[], 0⟩
    have htwo : completed = 2 := hcompleted.trans (by decide +kernel)
    rw [htwo] at hresult
    exact hresult

end SeriesTable.Run
