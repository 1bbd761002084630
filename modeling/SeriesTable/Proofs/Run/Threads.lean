import SeriesTable.Proofs.Run.Counting

/-
  Runs whose threads may fail. Beside such a run there is the one that the same actions make with
  steady threads: workers and supervisor do the same in both, and the collectors differ only once
  the one has a fault (`Steadies`). Every action preserves this (`Steadies.act`). A collector
  without room for a batch comes to no grouping (`Hopeless`). So a run that comes to a grouping
  comes to it with steady threads as well, and has counted the same (`play_start_of_ok`).
-/

namespace SeriesTable

namespace Run

variable {r r' plain : Run} {threads : Threads} {overflow : String} {s : Settings} {feed : Feed}
  {parts : List Request}

/-! ## Actions that leave the collector alone -/

/-- The run with another collector and another result. -/
def yielding (r : Run) (c : Collector) (result : Option (Except Fault Grouping)) : Run :=
  { r with collector := c, result }

/-- The action is one of the workers', or of the supervisor's before it takes the result. -/
def Action.isOuter : Action → Bool
  | .poll | .conclude | .expire .. => false
  | .enter _ | .ask _ | .fetch _ | .offer _ | .deliver _ | .abort _ | .join _ | .close
  | .breakOff => true

/-- Such an action leaves the collector and the result as they are, and of both it asks only whether
there is a result. -/
theorem Step.yielding {a : Action} (h : Step r a r') (ha : a.isOuter = true) (c : Collector)
    {result : Option (Except Fault Grouping)} (hresult : r.result = none ↔ result = none) :
    r'.collector = r.collector ∧ r'.result = r.result ∧
      (r.collecting = false → r'.collecting = false) ∧
      Step (r.yielding c result) a (r'.yielding c result) := by
  cases h with
  | opened hw hp hs => exact ⟨rfl, rfl, id, .opened hw hp hs⟩
  | unopened hw hp hs => exact ⟨rfl, rfl, id, .unopened hw hp hs⟩
  | asked hw hc => exact ⟨rfl, rfl, id, .asked hw hc⟩
  | stopped hw hc => exact ⟨rfl, rfl, id, .stopped hw hc⟩
  | yielded hw => exact ⟨rfl, rfl, id, .yielded hw⟩
  | exhausted hw => exact ⟨rfl, rfl, id, .exhausted hw⟩
  | broke hw => exact ⟨rfl, rfl, id, .broke hw⟩
  | offered hw hopen => exact ⟨rfl, rfl, id, .offered hw hopen⟩
  | refused hw hshut => exact ⟨rfl, rfl, id, .refused hw hshut⟩
  | delivered hw hroom => exact ⟨rfl, rfl, id, .delivered hw hroom⟩
  | aborted hw haborting hat => exact ⟨rfl, rfl, id, .aborted hw haborting hat⟩
  | failed ht hr hf => exact ⟨rfl, rfl, id, .failed ht (hresult.mp hr) hf⟩
  | joined ht hr hsettled hother =>
    exact ⟨rfl, rfl, id, .joined ht (hresult.mp hr) hsettled hother⟩
  | closed hr hall => exact ⟨rfl, rfl, id, .closed (hresult.mp hr) hall⟩
  | brokenOff hc => exact ⟨rfl, rfl, fun _ => rfl, .brokenOff hc⟩
  | found | idled | drained | concluded | cancelled | cut => cases ha

/-! ## The run with steady threads beside it -/

/-- The one run is as the other is with any threads, up to a fault of the other's collector. A
result that is a grouping is the result of both. -/
structure Steadies (plain r : Run) : Prop where
  rest : plain = r.yielding plain.collector plain.result
  result : r.result = none ↔ plain.result = none
  collector : r.collector.fault = none → plain.collector = r.collector.steadied
  ok : ∀ g, r.result = some (.ok g) →
    r.collecting = false ∧ r.collector.fault = none ∧ plain.result = some (.ok g)

theorem Steadies.step {a : Action} (h : Steadies plain r) (ha : a.isOuter = true)
    (hs : Step r a r') :
    ∃ plain', Step plain a plain' ∧ Steadies plain' r' := by
  obtain ⟨hcollector, hresult, hcollecting, hplain⟩ :=
    hs.yielding ha plain.collector h.result
  rw [← h.rest] at hplain
  refine ⟨_, hplain, rfl, ?_, ?_, ?_⟩
  · rw [hresult]
    exact h.result
  · rw [hcollector]
    exact h.collector
  · rw [hresult, hcollector]
    intro g hg
    obtain ⟨hended, hfault, hok⟩ := h.ok g hg
    exact ⟨hcollecting hended, hfault, hok⟩

theorem Steadies.act_outer (h : Steadies plain r) {a : Action} (ha : a.isOuter = true) :
    Steadies (plain.act a) (r.act a) := by
  unfold act
  cases hs : r.step? a with
  | some r' =>
    obtain ⟨plain', hplain, hrest⟩ := h.step ha (step?_eq_some_iff.mp hs)
    rw [hplain.step?]
    exact hrest
  | none =>
    cases hp : plain.step? a with
    | none => exact h
    | some plain' =>
      -- What the plain run can do, the other can do as well.
      obtain ⟨-, -, -, hback⟩ := (step?_eq_some_iff.mp hp).yielding ha r.collector h.result.symm
      have hsame : plain.yielding r.collector r.result = r := by
        rw [h.rest]
        rfl
      rw [hsame, ← step?_eq_some_iff, hs] at hback
      cases hback

theorem Steadies.poll (h : Steadies plain r) : Steadies (plain.act .poll) (r.act .poll) := by
  obtain ⟨hrest, hresult, hcollector, hok⟩ := h
  rw [hrest]
  show Steadies (((r.yielding _ _).poll?).getD _) ((r.poll?).getD r)
  unfold poll?
  show Steadies ((if r.collecting then _ else none).getD _) _
  by_cases hc : r.collecting = true
  · rw [if_pos hc, if_pos hc]
    refine ⟨rfl, hresult, fun hnone => ?_, fun g hg => ?_⟩
    · show plain.collector.step r.handoff.poll.1 = _
      have hearlier : r.collector.fault = none := by
        cases hfault : r.collector.fault with
        | none => rfl
        | some fault => exact absurd ((Collector.step_of_fault hfault _).symm.trans hnone) nofun
      rw [hcollector hearlier]
      exact Collector.step_steadied hnone
    · have hended := (hok g hg).1
      rw [hc] at hended
      cases hended
  · rw [if_neg hc, if_neg hc]
    exact ⟨rfl, hresult, hcollector, hok⟩

theorem Steadies.isNone_eq (h : Steadies plain r) : plain.result.isNone = r.result.isNone := by
  cases hr : r.result with
  | none => rw [h.result.mp hr]
  | some result =>
    cases hp : plain.result with
    | none =>
      rw [h.result.mpr hp] at hr
      cases hr
    | some _ => rfl

/-- The supervisor takes the same grouping from both. -/
theorem Steadies.verdict_ok (h : Steadies plain r) {g : Grouping} (hg : r.verdict = .ok g) :
    r.collector.fault = none ∧ plain.verdict = .ok g := by
  have hfailure : plain.failure = r.failure := by
    rw [h.rest]
    rfl
  unfold verdict at hg ⊢
  rw [hfailure]
  cases hf : r.failure with
  | some fault =>
    rw [hf] at hg
    cases hg
  | none =>
    rw [hf] at hg
    have hfault := Collector.fault_of_result_ok hg
    rw [h.collector hfault]
    exact ⟨hfault, hg⟩

theorem Steadies.conclude (h : Steadies plain r) :
    Steadies (plain.act .conclude) (r.act .conclude) := by
  have hnone := h.isNone_eq
  have hverdict := @h.verdict_ok
  obtain ⟨hrest, hresult, hcollector, hok⟩ := h
  rw [hrest] at hverdict ⊢
  show Steadies (((r.yielding _ _).conclude?).getD _) ((r.conclude?).getD r)
  unfold conclude?
  show Steadies ((if plain.result.isNone ∧ r.tasks.all Task.joined ∧ ¬ r.collecting then _
    else none).getD _) _
  rw [hnone]
  by_cases hc : r.result.isNone ∧ r.tasks.all Task.joined ∧ ¬ r.collecting
  · rw [if_pos hc, if_pos hc]
    refine ⟨rfl, iff_of_false nofun nofun, hcollector, fun g hg => ?_⟩
    obtain ⟨hfault, hplain⟩ := hverdict (Option.some.inj hg)
    exact ⟨by simpa using hc.2.2, hfault, congrArg some hplain⟩
  · rw [if_neg hc, if_neg hc]
    exact ⟨rfl, hresult, hcollector, hok⟩

theorem Steadies.expire (h : Steadies plain r) (mode : Settings.CancelMode) (elapsed : Nat) :
    Steadies (plain.act (.expire mode elapsed)) (r.act (.expire mode elapsed)) := by
  have hsome : plain.result.isSome = r.result.isSome := by
    rw [← Option.not_isNone, h.isNone_eq, Option.not_isNone]
  obtain ⟨hrest, hresult, hcollector, hok⟩ := h
  rw [hrest]
  show Steadies (((r.yielding _ _).expire? mode elapsed).getD _) ((r.expire? mode elapsed).getD r)
  unfold expire?
  show Steadies ((if plain.result.isSome then none else _).getD _) _
  rw [hsome]
  by_cases hc : r.result.isSome = true
  · rw [if_pos hc, if_pos hc]
    exact ⟨rfl, hresult, hcollector, hok⟩
  · rw [if_neg hc, if_neg hc]
    cases mode with
    | soft | hard => exact ⟨rfl, iff_of_false nofun nofun, hcollector, nofun⟩

theorem Steadies.act (h : Steadies plain r) (a : Action) : Steadies (plain.act a) (r.act a) := by
  cases a with
  | poll => exact h.poll
  | conclude => exact h.conclude
  | expire mode elapsed => exact h.expire mode elapsed
  | enter | ask | fetch | offer | deliver | abort | join | close | breakOff => exact h.act_outer rfl

theorem Steadies.play (h : Steadies plain r) (script : Script) :
    Steadies (plain.play script) (r.play script) := by
  refine List.foldl_rel h ?_
  rintro ⟨n, a⟩ - plain r h
  dsimp only
  induction n with
  | zero => exact h
  | succ n ih => exact ih.act a

/-! ## Without room for a batch -/

/-- The collector has a fault and polls no more, and there is no grouping. -/
structure Hopeless (r : Run) : Prop where
  collecting : r.collecting = false
  fault : r.collector.fault.isSome = true
  result : ∀ g, r.result ≠ some (.ok g)

theorem Hopeless.verdict_ne (h : r.Hopeless) (g : Grouping) : r.verdict ≠ .ok g := by
  unfold verdict
  cases r.failure with
  | some fault => exact nofun
  | none =>
    intro hg
    have hfault := h.fault
    rw [Collector.fault_of_result_ok hg] at hfault
    cases hfault

theorem Hopeless.step (h : r.Hopeless) {a : Action} (hs : Step r a r') : r'.Hopeless := by
  cases hs with
  | found hc | idled hc | drained hc =>
    rw [h.collecting] at hc
    cases hc
  | concluded => exact ⟨h.collecting, h.fault, fun g hg => h.verdict_ne g (Option.some.inj hg)⟩
  | cancelled => exact ⟨h.collecting, h.fault, nofun⟩
  | cut => exact ⟨rfl, h.fault, nofun⟩
  | brokenOff => exact ⟨rfl, h.fault, h.result⟩
  | opened | unopened | asked | stopped | yielded | exhausted | broke | offered | refused
  | delivered | aborted | failed | joined | closed => exact ⟨h.collecting, h.fault, h.result⟩

theorem Hopeless.play (h : r.Hopeless) (script : Script) : (r.play script).Hopeless :=
  play_preserves (Q := fun _ => True) (fun h _ hs => h.step hs) (fun _ _ => trivial) h

/-! ## Runs that are begun -/

/-- A run that is begun is the plain one with other threads, or its collector has no room for a
batch. -/
theorem tryStart_cases (h : tryStart threads overflow s feed parts = .ended r) :
    r = (start s feed parts).yielding (Collector.make threads s.grouping s.streams.batchSize) none ∨
    ∃ fault, r = { start s feed parts with
      collector := { (start s feed parts).collector with fault := some fault }
      collecting := false } := by
  rw [tryStart, Handoff.tryMake_eq] at h
  by_cases hopens : s.streams.bufferCapacity ≤ Handoff.mostPermits
  · rw [if_pos hopens] at h
    have hrun := Attempt.ended.inj h
    cases hstart : Collector.start threads s.grouping s.streams.batchSize with
    | ended collector =>
      obtain ⟨-, rfl⟩ := Attempt.reserving_eq_ended_iff.mp hstart
      rw [hstart] at hrun
      exact .inl hrun.symm
    | brokenOff =>
      rw [hstart] at hrun
      exact .inr ⟨_, hrun.symm⟩
  · rw [if_neg hopens] at h
    cases h

/-- A run that comes to a grouping comes to it with steady threads as well, and counts the same. -/
theorem play_start_of_ok (h : tryStart threads overflow s feed parts = .ended r) {script : Script}
    {g : Grouping} (hok : (r.play script).result = some (.ok g)) :
    (start s feed parts).play script =
      { r.play script with collector := (r.play script).collector.steadied } := by
  rcases tryStart_cases h with rfl | ⟨fault, rfl⟩
  · have hsteadies : Steadies (start s feed parts) ((start s feed parts).yielding
        (Collector.make threads s.grouping s.streams.batchSize) none) :=
      ⟨rfl, Iff.rfl, fun _ => rfl, fun g hg => by cases hg⟩
    have hplay := hsteadies.play script
    obtain ⟨-, hfault, hplain⟩ := hplay.ok g hok
    rw [hplay.rest, hplay.collector hfault, hplain, ← hok]
    rfl
  · exact absurd hok ((Hopeless.play ⟨rfl, rfl, fun g hg => by cases hg⟩ script).result g)

theorem balanced_of_tryStart (hs : 0 < s.streams.most)
    (h : tryStart threads overflow s feed parts = .ended r) : r.Balanced parts.length := by
  have hstart := balanced_start s hs feed parts
  rcases tryStart_cases h with rfl | ⟨fault, rfl⟩ <;>
    exact ⟨hstart.tasks, hstart.supplied, hstart.senders, hstart.completed⟩

theorem backed_of_tryStart (h : tryStart threads overflow s feed parts = .ended r) : r.Backed := by
  have hstart := backed_start s feed parts
  rcases tryStart_cases h with rfl | ⟨fault, rfl⟩ <;> exact hstart

end Run
end SeriesTable
