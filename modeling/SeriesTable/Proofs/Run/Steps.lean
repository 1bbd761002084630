import SeriesTable.Run
import SeriesTable.Proofs.Handoff.Steps

/-
  The steps of a run, one constructor of `Step` for each thing that can happen when an action is
  taken, with the condition under which it does. The steps are those of `Run.step?`
  (`step?_eq_some_iff`). What a step preserves is shown by cases on it, and what scripts preserve
  follows from what steps preserve (`play_preserves`).
-/

namespace SeriesTable

/-- The worker holds the sending end. -/
def Worker.isSending : Worker → Bool
  | sending .. => true
  | _ => false

namespace Run

variable {r r' : Run}

/-- The supervisor has heard of the end of every worker. -/
def AllJoined (r : Run) : Prop := ∀ t ∈ r.tasks, t.joined = true

/-- The first failure heard of, or else the collector's result. -/
def verdict (r : Run) : Except Fault Grouping :=
  match r.failure with
  | some fault => .error fault
  | none => r.collector.result

/-- The run with the supervisor having heard of a worker's end. -/
def join (r : Run) (i : Nat) : Run :=
  { r with tasks := r.tasks.modify i fun t => { t with joined := true } }

/-- The run with the result that the time ran out. -/
def late (r : Run) (elapsed : Nat) : Run :=
  { r with
    result := some (.error (.timedOut elapsed r.tally.completed r.tasks.length))
    handoff := r.handoff.shutdown }

/-- Everything that an action can do, with what it takes. -/
inductive Step (r : Run) : Action → Run → Prop where
  | opened {i : Nat} {part : Request} {s : Stream} (hw : r.worker? i = some (.waiting part))
      (hp : r.permits ≠ 0) (hs : r.feed.stream part = .ok s) :
      Step r (.enter i) ({ r with permits := r.permits - 1 }.setWorker i (.ready s))
  | unopened {i : Nat} {part : Request} {fault : Fault} (hw : r.worker? i = some (.waiting part))
      (hp : r.permits ≠ 0) (hs : r.feed.stream part = .error fault) :
      Step r (.enter i) (r.countStreamError.setWorker i (.failed fault))
  | asked {i : Nat} {s : Stream} (hw : r.worker? i = some (.ready s)) (hc : r.cancelled = false) :
      Step r (.ask i) (r.setWorker i (.asking s))
  | stopped {i : Nat} {s : Stream} (hw : r.worker? i = some (.ready s)) (hc : r.cancelled = true) :
      Step r (.ask i) (r.setWorker i .stopped)
  | yielded {i : Nat} {f : Fragment} {rest : List Fragment} {ending : Ending}
      (hw : r.worker? i = some (.asking ⟨f :: rest, ending⟩)) :
      Step r (.fetch i) ({ r with tally := { r.tally with
          received := r.tally.received + 1
          bytes := r.tally.bytes + f.size } }.setWorker i (.holding f ⟨rest, ending⟩))
  | exhausted {i : Nat} (hw : r.worker? i = some (.asking ⟨[], .exhausted⟩)) :
      Step r (.fetch i) ({ r with tally := { r.tally with
          completed := r.tally.completed + 1 } }.setWorker i .finished)
  | broke {i : Nat} {fault : Fault} (hw : r.worker? i = some (.asking ⟨[], .broken fault⟩)) :
      Step r (.fetch i) (r.countStreamError.setWorker i (.failed fault))
  | offered {i : Nat} {f : Fragment} {rest : Stream} (hw : r.worker? i = some (.holding f rest))
      (hopen : r.handoff.active = true ∧ r.handoff.reachable = true) :
      Step r (.offer i) ({ r with handoff := { r.handoff with
          senders := r.handoff.senders + 1 } }.setWorker i (.sending f rest))
  | refused {i : Nat} {f : Fragment} {rest : Stream} (hw : r.worker? i = some (.holding f rest))
      (hshut : ¬ (r.handoff.active = true ∧ r.handoff.reachable = true)) :
      Step r (.offer i) (r.setWorker i (.failed .bufferClosed))
  | delivered {i : Nat} {f : Fragment} {rest : Stream} (hw : r.worker? i = some (.sending f rest))
      (hroom : r.handoff.hasRoom = true) :
      Step r (.deliver i) ({ r with handoff := { r.handoff with
          queue := r.handoff.queue ++ [f]
          senders := r.handoff.senders - 1 } }.setWorker i (.ready rest))
  | aborted {i : Nat} {w : Worker} (hw : r.worker? i = some w) (ha : r.aborting = true)
      (hat : w.isSettled = false) :
      Step r (.abort i) ({ r with handoff := { r.handoff with
          senders := r.handoff.senders - w.isSending.toNat } }.setWorker i .aborted)
  | failed {i : Nat} {fault : Fault} (ht : r.tasks[i]? = some ⟨.failed fault, false⟩)
      (hr : r.result = none) (hf : r.failure = none) :
      Step r (.join i) { r.join i with failure := some fault, aborting := true }
  | joined {i : Nat} {w : Worker} (ht : r.tasks[i]? = some ⟨w, false⟩) (hr : r.result = none)
      (hsettled : w.isSettled = true) (hother : ∀ fault, w = .failed fault → r.failure ≠ none) :
      Step r (.join i) (r.join i)
  | closed (hr : r.result = none) (hall : r.AllJoined) :
      Step r .close { r with handoff := r.handoff.shutdown }
  | found {f : Fragment} {rest : List Fragment} (hc : r.collecting = true)
      (hq : r.handoff.queue = f :: rest) :
      Step r .poll { r with
        handoff := { r.handoff with queue := rest }
        collector := r.collector.step (.fragment f)
        collecting := true }
  | idled (hc : r.collecting = true) (hq : r.handoff.queue = [])
      (hopen : r.handoff.reachable = true ∨ 0 < r.handoff.senders) :
      Step r .poll { r with collector := r.collector.step .idle, collecting := true }
  | drained (hc : r.collecting = true) (hq : r.handoff.queue = [])
      (hshut : ¬ (r.handoff.reachable = true ∨ 0 < r.handoff.senders)) :
      Step r .poll { r with collector := r.collector.step .drained, collecting := false }
  | concluded (hr : r.result = none) (hall : r.AllJoined) (hc : r.collecting = false) :
      Step r .conclude { r with result := some r.verdict }
  | cancelled {elapsed : Nat} (hr : r.result = none) :
      Step r (.expire .soft elapsed) { r.late elapsed with cancelled := true }
  | cut {elapsed : Nat} (hr : r.result = none) :
      Step r (.expire .hard elapsed) { r.late elapsed with aborting := true, collecting := false }
  | brokenOff (hc : r.cancelled = true) :
      Step r .breakOff { r with aborting := true, collecting := false }

/-! ## The steps of the workers -/

theorem step_of_enter? {i : Nat} (hs : r.enter? i = some r') : Step r (.enter i) r' := by
  unfold enter? at hs
  split at hs
  · rename_i part hw
    split at hs
    · cases hs
    · rename_i hp
      split at hs
      · rename_i s hstream
        cases hs
        exact .opened hw hp hstream
      · rename_i fault hstream
        cases hs
        exact .unopened hw hp hstream
  · cases hs

theorem step_of_ask? {i : Nat} (hs : r.ask? i = some r') : Step r (.ask i) r' := by
  unfold ask? at hs
  split at hs
  · rename_i s hw
    cases hc : r.cancelled with
    | false =>
      rw [hc] at hs
      cases hs
      exact .asked hw hc
    | true =>
      rw [hc] at hs
      cases hs
      exact .stopped hw hc
  · cases hs

theorem step_of_fetch? {i : Nat} (hs : r.fetch? i = some r') : Step r (.fetch i) r' := by
  unfold fetch? at hs
  split at hs
  · rename_i s hw
    obtain ⟨fragments, ending⟩ := s
    cases fragments with
    | cons f rest =>
      cases hs
      exact .yielded hw
    | nil =>
      cases ending with
      | exhausted =>
        cases hs
        exact .exhausted hw
      | broken fault =>
        cases hs
        exact .broke hw
      | never => cases hs
  · cases hs

theorem step_of_offer? {i : Nat} (hs : r.offer? i = some r') : Step r (.offer i) r' := by
  unfold offer? at hs
  split at hs
  · rename_i f rest hw
    rw [Handoff.attachIfActive_eq] at hs
    by_cases hopen : r.handoff.active = true ∧ r.handoff.reachable = true
    · rw [if_pos hopen] at hs
      cases hs
      exact .offered hw hopen
    · rw [if_neg hopen] at hs
      cases hs
      exact .refused hw hopen
  · cases hs

theorem step_of_deliver? {i : Nat} (hs : r.deliver? i = some r') : Step r (.deliver i) r' := by
  unfold deliver? at hs
  split at hs
  · rename_i f rest hw
    obtain ⟨handoff, hsend, rfl⟩ := Option.map_eq_some_iff.mp hs
    obtain ⟨hroom, rfl⟩ := Handoff.send?_eq_some_iff.mp hsend
    exact .delivered hw hroom
  · cases hs

theorem step_of_abort? {i : Nat} (hs : r.abort? i = some r') : Step r (.abort i) r' := by
  unfold abort? at hs
  split at hs
  · rename_i w hw
    split at hs
    · rename_i hcan
      cases hs
      have hat : w.isSettled = false := by simpa using hcan.2
      cases w <;> exact .aborted hw hcan.1 hat
    · cases hs
  · cases hs

/-! ## The steps of the supervisor and the collector -/

theorem step_of_join? {i : Nat} (hs : r.join? i = some r') : Step r (.join i) r' := by
  unfold join? at hs
  split at hs
  · rename_i w ht
    split at hs
    · cases hs
    · rename_i hcan
      obtain ⟨hresult, hnot⟩ := not_or.mp hcan
      have hr : r.result = none := by simpa using hresult
      have hsettled : w.isSettled = true := by simpa using hnot
      dsimp only at hs
      split at hs
      · rename_i fault hf
        cases hs
        exact .failed ht hr hf
      · rename_i hother
        cases hs
        exact .joined ht hr hsettled hother
  · cases hs

theorem step_of_close? (hs : r.close? = some r') : Step r .close r' := by
  unfold close? at hs
  split at hs
  · rename_i hcan
    cases hs
    exact .closed (by simpa using hcan.1) (List.all_eq_true.mp hcan.2)
  · cases hs

theorem step_of_poll? (hs : r.poll? = some r') : Step r .poll r' := by
  unfold poll? at hs
  split at hs
  · rename_i hc
    cases hq : r.handoff.queue with
    | cons f rest =>
      rw [Handoff.poll_of_cons hq] at hs
      cases hs
      exact .found hc hq
    | nil =>
      rw [Handoff.poll_of_nil hq] at hs
      by_cases hopen : r.handoff.reachable = true ∨ 0 < r.handoff.senders
      · rw [if_pos hopen] at hs
        cases hs
        exact .idled hc hq hopen
      · rw [if_neg hopen] at hs
        cases hs
        exact .drained hc hq hopen
  · cases hs

theorem step_of_conclude? (hs : r.conclude? = some r') : Step r .conclude r' := by
  unfold conclude? at hs
  split at hs
  · rename_i hcan
    cases hs
    obtain ⟨hresult, hjoined, hcollecting⟩ := hcan
    have hall : r.AllJoined := List.all_eq_true.mp hjoined
    exact .concluded (by simpa using hresult) hall (by simpa using hcollecting)
  · cases hs

theorem step_of_expire? {mode : Settings.CancelMode} {elapsed : Nat}
    (hs : r.expire? mode elapsed = some r') : Step r (.expire mode elapsed) r' := by
  unfold expire? at hs
  split at hs
  · cases hs
  · rename_i hcan
    have hr : r.result = none := by simpa using hcan
    cases mode with
    | soft =>
      cases hs
      exact .cancelled hr
    | hard =>
      cases hs
      exact .cut hr

theorem step_of_breakOff? (hs : r.breakOff? = some r') : Step r .breakOff r' := by
  unfold breakOff? at hs
  split at hs
  · rename_i hc
    cases hs
    exact .brokenOff hc
  · cases hs

/-! ## All steps -/

theorem step_of_step? {a : Action} (hs : r.step? a = some r') : Step r a r' := by
  cases a with
  | enter i => exact step_of_enter? hs
  | ask i => exact step_of_ask? hs
  | fetch i => exact step_of_fetch? hs
  | offer i => exact step_of_offer? hs
  | deliver i => exact step_of_deliver? hs
  | abort i => exact step_of_abort? hs
  | join i => exact step_of_join? hs
  | close => exact step_of_close? hs
  | poll => exact step_of_poll? hs
  | conclude => exact step_of_conclude? hs
  | expire mode elapsed => exact step_of_expire? hs
  | breakOff => exact step_of_breakOff? hs

theorem Step.step? {a : Action} (h : Step r a r') : r.step? a = some r' := by
  cases h with
  | opened hw hp hs => simp [Run.step?, enter?, hw, hp, hs]
  | unopened hw hp hs => simp [Run.step?, enter?, hw, hp, hs]
  | asked hw hc => simp [Run.step?, ask?, hw, hc]
  | stopped hw hc => simp [Run.step?, ask?, hw, hc]
  | yielded hw => simp [Run.step?, fetch?, hw, Stream.next?]
  | exhausted hw => simp [Run.step?, fetch?, hw, Stream.next?]
  | broke hw => simp [Run.step?, fetch?, hw, Stream.next?]
  | offered hw hopen => simp [Run.step?, offer?, hw, Handoff.attachIfActive_eq, hopen]
  | refused hw hshut => simp only [Run.step?, offer?, hw, Handoff.attachIfActive_eq, if_neg hshut]
  | delivered hw hroom => simp [Run.step?, deliver?, hw, Handoff.send?_eq_some_iff.mpr ⟨hroom, rfl⟩]
  | @aborted i w hw ha hat =>
    cases w <;> simp [Run.step?, abort?, hw, ha, hat, Worker.isSending, Handoff.detach]
  | failed ht hr hf => simp [Run.step?, join?, ht, hr, hf, Worker.isSettled, join]
  | joined ht hr hsettled hother =>
    simp only [Run.step?, join?, ht]
    rw [if_neg (by simp [hr, hsettled])]
    rfl
  | closed hr hall =>
    have hjoined : r.tasks.all Task.joined = true := List.all_eq_true.mpr hall
    simp [Run.step?, close?, hr, hjoined]
  | found hc hq => simp [Run.step?, poll?, hc, Handoff.poll_of_cons hq]
  | idled hc hq hopen => simp [Run.step?, poll?, hc, Handoff.poll_of_nil hq, hopen]
  | drained hc hq hshut => simp [Run.step?, poll?, hc, Handoff.poll_of_nil hq, hshut]
  | concluded hr hall hc =>
    have hjoined : r.tasks.all Task.joined = true := List.all_eq_true.mpr hall
    simp only [Run.step?, conclude?]
    rw [if_pos ⟨by rw [hr]; rfl, hjoined, by rw [hc]; exact Bool.false_ne_true⟩]
    rfl
  | cancelled hr => simp [Run.step?, expire?, hr, late]
  | cut hr => simp [Run.step?, expire?, hr, late]
  | brokenOff hc => simp [Run.step?, breakOff?, hc]

theorem step?_eq_some_iff {a : Action} : r.step? a = some r' ↔ Step r a r' :=
  ⟨step_of_step?, Step.step?⟩

/-! ## Scripts -/

/-- What every step of some kind preserves holds after a script of such actions. -/
theorem play_preserves {P : Run → Prop} {Q : Action → Prop}
    (hstep : ∀ {r r' : Run} {a : Action}, P r → Q a → Step r a r' → P r')
    {script : Script} (hscript : ∀ s ∈ script.steps, Q s.2) (h : P r) : P (r.play script) := by
  have hact : ∀ {r : Run} {a : Action}, Q a → P r → P (r.act a) := by
    intro r a ha h
    rw [act]
    cases hs : r.step? a with
    | none => exact h
    | some r' => exact hstep h ha (step?_eq_some_iff.mp hs)
  have hrepeat : ∀ {r : Run} {a : Action} (n : Nat), Q a → P r →
      P (Nat.repeat (act · a) n r) := by
    intro r a n ha h
    induction n with
    | zero => exact h
    | succ n ih => exact hact ha ih
  obtain ⟨steps, elapsed⟩ := script
  unfold play
  induction steps generalizing r with
  | nil => exact h
  | cons s steps ih =>
    obtain ⟨hfirst, hrest⟩ := List.forall_mem_cons.mp hscript
    exact ih (hrepeat s.1 hfirst h) hrest

end Run

end SeriesTable
