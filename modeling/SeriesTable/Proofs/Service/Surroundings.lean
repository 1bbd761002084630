import SeriesTable.Proofs.Run.Threads
import SeriesTable.Proofs.Service.Counting

/-
  Services whatever surrounds them. A request may break off, and it may have a fault because no pool
  can be built or a task is lost. But a table that it has, the plain service has as well, with the
  same counters (`tableAlong_of_tryTable_ok`), and with a fault nothing is counted as served
  (`sameServed_of_tryTable_error`). So in any surroundings the counters say of a request what they
  say of it in sound ones.

  Main statement: `tryTable_truthful`.
-/

namespace SeriesTable

namespace Service

variable {s s' : Service} {fs : List Fragment} {delay : Nat} {failing : Option String}
  {around : Surroundings} {course : Course} {r : Request}

/-! ## What is fetched -/

/-- A request that does not break off was not divided, or its parts were run. -/
theorem tryFetch_cases {fetched : Except Fault (Grouping × Nat)}
    (h : s.tryFetch around course r = .ended (fetched, s')) :
    (∃ fault, fetched = .error fault ∧ s' = s) ∨
    ∃ parts run, s.planner.tryParts r = .ended (.ok parts) ∧
      Run.tryStart around.threads around.overflow s.settings s.feed parts = .ended run ∧
      s.conclude parts (course parts) run = (fetched, s') := by
  unfold tryFetch at h
  cases hparts : s.planner.tryParts r with
  | brokenOff =>
    rw [hparts] at h
    cases h
  | ended divided =>
    rw [hparts] at h
    cases divided with
    | error fault =>
      cases h
      exact .inl ⟨fault, rfl, rfl⟩
    | ok parts =>
      simp only at h
      cases hrun : Run.tryStart around.threads around.overflow s.settings s.feed parts with
      | brokenOff =>
        rw [hrun] at h
        cases h
      | ended run =>
        rw [hrun] at h
        exact .inr ⟨parts, run, rfl, hrun, Attempt.ended.inj h⟩

/-- What is fetched, the plain service fetches as well, and it counts the same. -/
theorem fetch_of_tryFetch_ok {fetched : Grouping × Nat}
    (h : s.tryFetch around course r = .ended (.ok fetched, s')) :
    s.fetch course r = (.ok fetched, s') := by
  rcases tryFetch_cases h with ⟨fault, hfault, -⟩ | ⟨parts, run, hparts, hrun, hconclude⟩
  · cases hfault
  · have hresult := result_of_conclude (congrArg Prod.fst hconclude)
    unfold fetch
    rw [Planner.parts_of_tryParts hparts, ← hconclude]
    simp only [conclude]
    rw [Run.play_start_of_ok hrun hresult]
    rfl

/-- The plain run of a request whose parts are fetched has its result as well. -/
theorem FinishesIn.finishes_of_ok (h : s.FinishesIn around course r) {fetched : Grouping × Nat}
    (hfetch : s.tryFetch around course r = .ended (.ok fetched, s')) : s.Finishes course r := by
  rcases tryFetch_cases hfetch with ⟨fault, hfault, -⟩ | ⟨parts, run, hparts, hrun, hconclude⟩
  · cases hfault
  · intro parts' hparts'
    obtain rfl := Except.ok.inj ((Planner.parts_of_tryParts hparts).symm.trans hparts')
    obtain ⟨htimely, hsome⟩ := h parts run hparts hrun
    refine ⟨htimely, ?_⟩
    rw [Run.play_start_of_ok hrun (result_of_conclude (congrArg Prod.fst hconclude))]
    exact hsome

/-! ## What becomes of it -/

/-- A request that does not break off was fetched, and what was fetched was built. -/
theorem tryTable_cases {answer : Except Fault PagedTable}
    (h : s.tryTable around course r = .ended (answer, s')) :
    ∃ fetched t, s.tryFetch around course r = .ended (fetched, t) ∧
      t.build around.lostBuild fetched = (answer, s') := by
  unfold tryTable at h
  cases hfetch : s.tryFetch around course r with
  | brokenOff =>
    rw [hfetch] at h
    cases h
  | ended fetched =>
    rw [hfetch] at h
    exact ⟨fetched.1, fetched.2, rfl, Attempt.ended.inj h⟩

/-- If the task that builds a table is not lost, it builds the plain one. -/
theorem build_of_ok {lost : Option String} {fetched : Except Fault (Grouping × Nat)}
    {table : PagedTable} (h : s.build lost fetched = (.ok table, s')) :
    (∃ x, fetched = .ok x) ∧ s.build none fetched = (.ok table, s') := by
  cases fetched with
  | error fault => cases h
  | ok x =>
    cases lost with
    | some report => cases h
    | none => exact ⟨⟨x, rfl⟩, h⟩

/-- A service that builds no table counts nothing. -/
theorem build_of_error {lost : Option String} {fetched : Except Fault (Grouping × Nat)}
    {fault : Fault} (h : s.build lost fetched = (.error fault, s')) : s' = s := by
  unfold build at h
  split at h
  · cases h
    rfl
  · split at h
    · cases h
      rfl
    · split at h
      · cases h
        rfl
      · cases h

/-- A table that a request has, it has of the plain service as well, and that counts the same. -/
theorem tableAlong_of_tryTable_ok {table : PagedTable}
    (h : s.tryTable around course r = .ended (.ok table, s')) :
    s.tableAlong course r = (.ok table, s') := by
  obtain ⟨fetched, t, hfetch, hbuild⟩ := tryTable_cases h
  obtain ⟨⟨x, rfl⟩, hplain⟩ := build_of_ok hbuild
  rw [tableAlong, fetch_of_tryFetch_ok hfetch]
  exact hplain

/-- A request with a fault is not counted as served. -/
theorem sameServed_of_tryTable_error {fault : Fault}
    (h : s.tryTable around course r = .ended (.error fault, s')) :
    SameServed s.counters s'.counters := by
  obtain ⟨fetched, t, hfetch, hbuild⟩ := tryTable_cases h
  obtain rfl := build_of_error hbuild
  rcases tryFetch_cases hfetch with ⟨_, -, rfl⟩ | ⟨parts, run, -, -, hconclude⟩
  · exact ⟨rfl, rfl, rfl⟩
  · obtain ⟨timeouts, hcounters⟩ := s.conclude_snd parts (course parts) run
    rw [hconclude] at hcounters
    obtain rfl : s' = _ := hcounters
    exact ⟨rfl, rfl, rfl⟩

/-- Whatever comes of a request, no more parts are counted as completed than as issued, and no more
fragments as rejected than as received. -/
theorem shows_of_tryTable (hs : s.settings.InBounds) {answer : Except Fault PagedTable}
    (h : s.tryTable around course r = .ended (answer, s')) :
    ∃ n : Counts, n.Truthful ∧ ∀ m : Counts, m.Shows s.counters → (m.add n).Shows s'.counters := by
  obtain ⟨fetched, t, hfetch, hbuild⟩ := tryTable_cases h
  obtain rfl : (t.build around.lostBuild fetched).2 = s' := congrArg Prod.snd hbuild
  rcases tryFetch_cases hfetch with ⟨_, -, rfl⟩ | ⟨parts, run, -, hrun, hconclude⟩
  · refine ⟨.none, ⟨Nat.le_refl _, Nat.le_refl _⟩, fun m hm => shows_build ?_ ..⟩
    exact hm
  · have hbalanced := (Run.balanced_of_tryStart hs.streams hrun).play (course parts)
    have hbacked := (Run.backed_of_tryStart hrun).play (course parts)
    refine ⟨⟨parts.length, (run.play (course parts)).tally.completed,
      (run.play (course parts)).tally.received, (run.play (course parts)).collector.rejected⟩,
      ⟨hbalanced.completed_le, hbacked.rejected_le⟩, fun m hm => shows_build ?_ ..⟩
    have hshows := shows_conclude hm parts (course parts) run
    rwa [hconclude] at hshows

/-- Whatever surrounds a service, a request that finishes adds to the counters what truly happened:
with a table exactly what the table is made of, as with the plain service, and with a fault nothing
of what is counted as served. -/
theorem tryTable_truthful (hfeed : s.feed = .stored fs delay failing) (hs : s.settings.InBounds)
    (hword : s.counters.rejected < Counters.wordSize) (hr : r.Valid)
    (hfinishes : s.FinishesIn around course r) {answer : Except Fault PagedTable}
    (h : s.tryTable around course r = .ended (answer, s')) :
    (∃ n : Counts, n.Truthful ∧ ∀ m : Counts, m.Shows s.counters → (m.add n).Shows s'.counters) ∧
    (∀ table, answer = .ok table → s.tableAlong course r = (.ok table, s') ∧
      ∃ parts, s.planner.parts r = .ok parts ∧
        Adds s.settings.streams.batchSize parts (Feed.served r fs) s.counters s'.counters) ∧
    ∀ fault, answer = .error fault → SameServed s.counters s'.counters := by
  refine ⟨shows_of_tryTable hs h, ?_, ?_⟩
  · rintro table rfl
    have htable := tableAlong_of_tryTable_ok h
    obtain ⟨fetched, t, hfetch, hbuild⟩ := tryTable_cases h
    obtain ⟨⟨x, rfl⟩, -⟩ := build_of_ok hbuild
    have hadds := adds_of_ok hfeed hs hword hr (hfinishes.finishes_of_ok hfetch)
      (congrArg Prod.fst htable)
    rw [htable] at hadds
    exact ⟨htable, hadds⟩
  · rintro fault rfl
    exact sameServed_of_tryTable_error h

end Service

end SeriesTable
