import SeriesTable.Service
import SeriesTable.Proofs.Run.Progress
import SeriesTable.Proofs.Settings.Bounds
import SeriesTable.Proofs.PagedTable.Fragments
import SeriesTable.Proofs.Request.Cover

/-
  The table of a request does not show how the request was divided. `Finishes` says that a course
  brings the request to its result before the time limit passes. Two services of the same stored
  fragments may differ in their settings, their counters and their courses: for a request that
  finishes with both of them they have the same table, or a fault each. Every course that is begun
  can be brought to a finish.

  What the services reserve does show: batches or parts that there is no room for cost the table,
  and so does a pool that cannot be built for what only one of them distributes
  (`division_visible`). With room for the batches and the parts (`Roomy`), and if nothing around the
  services fails (`Surroundings.Sound`), they do as the plain ones.

  Main statement: `division_invisible`.
-/

namespace SeriesTable

open Grouping (Compatible)

namespace Service

/-- Along the course the run of the request's parts has its result before the time limit passes. -/
def Finishes (s : Service) (course : Course) (r : Request) : Prop :=
  ∀ parts, s.planner.parts r = .ok parts →
    (course parts).Timely ∧
      ((Run.start s.settings s.feed parts).play (course parts)).result.isSome = true

variable {s : Service} {fs : List Fragment} {delay : Nat} {failing : Option String}
  {course : Course} {r : Request}

/-- The parts' streams come to their ends, and together they bring what the request is served. -/
theorem streams_of_parts (hfeed : s.feed = .stored fs delay none) (hr : r.Valid) :
    ∃ parts streams, s.planner.parts r = .ok parts ∧ parts.mapM s.feed.stream = .ok streams ∧
      (∀ stream ∈ streams, stream.ending = .exhausted) ∧
      (streams.flatMap Stream.fragments).Perm (Feed.served r fs) := by
  obtain ⟨parts, hparts, hcount⟩ := s.planner.parts_ok hr
  refine ⟨parts, parts.map fun part => ⟨Feed.served part fs, .exhausted⟩, hparts, ?_, ?_, ?_⟩
  · refine mapM_eq_ok fun part _ => ?_
    rw [hfeed, Feed.stream_stored]
  · intro stream hstream
    obtain ⟨part, -, rfl⟩ := List.mem_map.mp hstream
    rfl
  · rw [List.flatMap_map]
    exact Feed.served_parts hcount fs

theorem exhausts_of_stored (hfeed : s.feed = .stored fs delay none) (part : Request) :
    s.feed.Exhausts part := by
  rw [hfeed]
  exact Feed.exhausts_stored fs delay part

/-- If all their streams come to their ends, the parts are served what the request is served. -/
theorem perm_served (hfeed : s.feed = .stored fs delay failing) (hr : r.Valid)
    {parts : List Request} (hparts : s.planner.parts r = .ok parts)
    (hexhausts : ∀ part ∈ parts, s.feed.Exhausts part) :
    (parts.flatMap s.feed.brings).Perm (Feed.served r fs) := by
  obtain ⟨parts', hparts', hcount⟩ := s.planner.parts_ok hr
  obtain rfl : parts' = parts := Except.ok.inj (hparts'.symm.trans hparts)
  have hbrings : parts'.flatMap s.feed.brings = parts'.flatMap fun part => Feed.served part fs := by
    rw [hfeed] at hexhausts ⊢
    exact List.flatMap_congr fun part hpart => Feed.brings_of_exhausts (hexhausts part hpart)
  rw [hbrings]
  exact Feed.served_parts hcount fs

theorem brings_parts (hfeed : s.feed = .stored fs delay none) (hr : r.Valid)
    {parts : List Request} (hparts : s.planner.parts r = .ok parts) :
    (parts.flatMap s.feed.brings).Perm (Feed.served r fs) :=
  perm_served hfeed hr hparts fun part _ => exhausts_of_stored hfeed part

/-- A course that has begun can be continued until it finishes. -/
theorem exists_finishes (hfeed : s.feed = .stored fs delay none) (hs : s.settings.check = .ok ())
    (hr : r.Valid) (hcourse : ∀ parts, (course parts).Timely) :
    ∃ whole : Course, (∀ parts, (course parts).steps <+: (whole parts).steps) ∧
      s.Finishes whole r := by
  obtain ⟨parts, hparts, -⟩ := s.planner.parts_ok hr
  have hmost := (Settings.check_eq_ok_iff.mp hs).streams
  have hbalanced := Run.balanced_start s.settings hmost s.feed parts
  have hends : ∀ part ∈ parts, s.feed.Ends part := fun part _ =>
    (exhausts_of_stored hfeed part).ends
  obtain ⟨script, htimely, hprefix, -, hresult⟩ :=
    (Run.orderly_start s.settings s.feed parts).exists_continuation hends hbalanced (hcourse parts)
  refine ⟨fun parts' => if parts' = parts then script else course parts', fun parts' => ?_,
    fun parts' hparts' => ?_⟩
  · dsimp only
    split
    · rename_i heq
      rw [heq]
      exact hprefix
    · exact List.prefix_refl _
  · obtain rfl : parts = parts' := Except.ok.inj (hparts.symm.trans hparts')
    dsimp only
    rw [if_pos rfl]
    exact ⟨htimely, hresult⟩

/-- What is fetched is a grouping of the fragments that the request is served, if they are
compatible; otherwise there is a fault. -/
theorem fetch_spec (hfeed : s.feed = .stored fs delay none) (hr : r.Valid)
    (hfinishes : s.Finishes course r) :
    if Compatible (Feed.served r fs) then
      ∃ g elapsed, (s.fetch course r).1 = .ok (g, elapsed) ∧ g.Holds (Feed.served r fs)
    else ∃ fault, (s.fetch course r).1 = .error fault := by
  obtain ⟨parts, hparts, -⟩ := s.planner.parts_ok hr
  obtain ⟨htimely, hsome⟩ := hfinishes parts hparts
  obtain ⟨result, hresult⟩ := Option.isSome_iff_exists.mp hsome
  have hfetch : (s.fetch course r).1 = result.map fun g => (g, (course parts).elapsed) := by
    unfold fetch conclude
    rw [hparts]
    simp only
    rw [hresult]
    rfl
  have horderly := (Run.orderly_start s.settings s.feed parts).play htimely
  have hsound := horderly.failure_eq_none fun part _ => (exhausts_of_stored hfeed part).not_fails
  have hspec := horderly.result_of_none hsound hresult
  have hbrings := brings_parts hfeed hr hparts
  rw [hfetch]
  by_cases hc : Compatible (Feed.served r fs)
  · rw [if_pos ((Grouping.compatible_perm_iff hbrings).mpr hc)] at hspec
    obtain ⟨g, rfl, hkeeps⟩ := hspec
    rw [if_pos hc]
    exact ⟨g, _, rfl, hkeeps.holds.perm hbrings⟩
  · rw [if_neg (mt (Grouping.compatible_perm_iff hbrings).mp hc)] at hspec
    obtain ⟨fault, rfl, -⟩ := hspec
    rw [if_neg hc]
    exact ⟨fault, rfl⟩

theorem tableAlong_of_error {fault : Fault} (h : (s.fetch course r).1 = .error fault) :
    (s.tableAlong course r).1 = .error fault := by
  unfold tableAlong
  simp only
  rw [h]
  rfl

theorem tableAlong_of_ok {g : Grouping} {elapsed : Nat}
    (h : (s.fetch course r).1 = .ok (g, elapsed)) :
    (s.tableAlong course r).1 = (bind g.list).map fun bound => PagedTable.ofBook bound.1 := by
  unfold tableAlong
  simp only
  rw [h]
  simp only [build]
  cases bind g.list <;> rfl

/-- The fragments of a grouping can be bound exactly if a source has one kind wherever it occurs. -/
theorem bind_ok_iff {g : Grouping} {ds : List Fragment} (hg : g.Holds ds) :
    (∃ bound, bind g.list = .ok bound) ↔ Fragment.KindsAgree ds := by
  have hbind : bind g.list = (Book.ofRegions (Resolution.ofBlocks g.list).regions).map fun book =>
      (book, (Resolution.ofBlocks g.list).mergedCount) := by
    simp only [bind, hg.checked_ofBlocks, Bind.bind, Except.bind]
    cases Book.ofRegions (Resolution.ofBlocks g.list).regions <;> rfl
  rw [← hg.uniform_iff, hbind]
  rcases hg.ofRegions_cases with ⟨book, hbook, hshows⟩ | ⟨fault, hfault, hconflict⟩
  · rw [hbook]
    exact iff_of_true ⟨_, rfl⟩ hshows.uniform
  · rw [hfault]
    refine iff_of_false (fun ⟨_, h⟩ => ?_) hconflict.not_uniform
    cases h

/-- Whether a request that finishes has a table is a matter of the fragments that it is served. -/
theorem tableAlong_ok_iff (hfeed : s.feed = .stored fs delay none) (hr : r.Valid)
    (hfinishes : s.Finishes course r) :
    (∃ table, (s.tableAlong course r).1 = .ok table) ↔
      Compatible (Feed.served r fs) ∧ Fragment.KindsAgree (Feed.served r fs) := by
  have hspec := fetch_spec hfeed hr hfinishes
  by_cases hc : Compatible (Feed.served r fs)
  · rw [if_pos hc] at hspec
    obtain ⟨g, elapsed, hfetch, hholds⟩ := hspec
    rw [tableAlong_of_ok hfetch, and_iff_right hc, ← bind_ok_iff hholds]
    cases bind g.list with
    | error fault => exact iff_of_false (fun ⟨_, h⟩ => by cases h) fun ⟨_, h⟩ => by cases h
    | ok bound => exact iff_of_true ⟨_, rfl⟩ ⟨bound, rfl⟩
  · rw [if_neg hc] at hspec
    obtain ⟨fault, hfault⟩ := hspec
    rw [tableAlong_of_error hfault]
    exact iff_of_false (fun ⟨_, h⟩ => by cases h) fun h => hc h.1

/-- Two services of the same fragments have the same table, or both fail. -/
theorem tableAlong_agree {s₁ s₂ : Service} {delay₁ delay₂ : Nat} {course₁ course₂ : Course}
    (hfeed₁ : s₁.feed = .stored fs delay₁ none) (hfeed₂ : s₂.feed = .stored fs delay₂ none)
    (hr : r.Valid) (hfinishes₁ : s₁.Finishes course₁ r) (hfinishes₂ : s₂.Finishes course₂ r) :
    ((∃ fault, (s₁.tableAlong course₁ r).1 = .error fault) ∧
        ∃ fault, (s₂.tableAlong course₂ r).1 = .error fault) ∨
      ∃ table, (s₁.tableAlong course₁ r).1 = .ok table ∧
        (s₂.tableAlong course₂ r).1 = .ok table := by
  have hspec₁ := fetch_spec hfeed₁ hr hfinishes₁
  have hspec₂ := fetch_spec hfeed₂ hr hfinishes₂
  by_cases hc : Compatible (Feed.served r fs)
  · rw [if_pos hc] at hspec₁ hspec₂
    obtain ⟨g₁, elapsed₁, hfetch₁, hholds₁⟩ := hspec₁
    obtain ⟨g₂, elapsed₂, hfetch₂, hholds₂⟩ := hspec₂
    have hlist : g₂.list = g₁.list := by
      rw [Grouping.list, Grouping.list, hholds₂.blocks_eq (.refl _) hholds₁]
    have htable₁ := tableAlong_of_ok hfetch₁
    have htable₂ := tableAlong_of_ok hfetch₂
    rw [hlist] at htable₂
    cases hbind : bind g₁.list with
    | error fault =>
      rw [hbind] at htable₁ htable₂
      exact .inl ⟨⟨fault, htable₁⟩, fault, htable₂⟩
    | ok bound =>
      rw [hbind] at htable₁ htable₂
      exact .inr ⟨_, htable₁, htable₂⟩
  · rw [if_neg hc] at hspec₁ hspec₂
    obtain ⟨fault₁, hfault₁⟩ := hspec₁
    obtain ⟨fault₂, hfault₂⟩ := hspec₂
    exact .inl ⟨⟨_, tableAlong_of_error hfault₁⟩, _, tableAlong_of_error hfault₂⟩

/-! ## What surrounds the services -/

/-- A pool can be built for every batch, and no task is lost. -/
structure Surroundings.Sound (around : Surroundings) : Prop where
  pool : ∀ n, around.threads.noPool n = none
  batches : ∀ n, around.threads.lost n = none
  build : around.lostBuild = none

/-- There is room for a batch and for the parts of the request. -/
structure Roomy (s : Service) (r : Request) : Prop where
  batch : Reservable s.settings.streams.batchSize Fragment.recordBytes
  parts : s.planner.enabled = true →
    ¬ (s.planner.plan r s.planner.policy).Oversized r.duration

/-- Along the course the run of the request's parts has its result before the time limit passes,
unless the request breaks off. -/
def FinishesIn (s : Service) (around : Surroundings) (course : Course) (r : Request) : Prop :=
  ∀ parts run, s.planner.tryParts r = .ended (.ok parts) →
    Run.tryStart around.threads around.overflow s.settings s.feed parts = .ended run →
    (course parts).Timely ∧ (run.play (course parts)).result.isSome = true

/-- The request has this table. -/
def Answers (s : Service) (around : Surroundings) (course : Course) (r : Request)
    (table : PagedTable) : Prop :=
  ∃ s', s.tryTable around course r = .ended (.ok table, s')

/-- The request breaks off or has a fault. -/
def Fails (s : Service) (around : Surroundings) (course : Course) (r : Request) : Prop :=
  s.tryTable around course r = .brokenOff ∨
    ∃ fault s', s.tryTable around course r = .ended (.error fault, s')

variable {around : Surroundings}

theorem answers_iff {answer : Except Fault PagedTable × Service} {table : PagedTable}
    (h : s.tryTable around course r = .ended answer) :
    s.Answers around course r table ↔ answer.1 = .ok table := by
  obtain ⟨result, s'⟩ := answer
  simp [Answers, h]

theorem fails_iff {answer : Except Fault PagedTable × Service}
    (h : s.tryTable around course r = .ended answer) :
    s.Fails around course r ↔ ∃ fault, answer.1 = .error fault := by
  obtain ⟨result, s'⟩ := answer
  simp [Fails, h]

theorem Fails.not_answers {table : PagedTable} (h : s.Fails around course r) :
    ¬ s.Answers around course r table := by
  rintro ⟨s', htable⟩
  rcases h with hbroken | ⟨fault, s'', herror⟩
  · rw [hbroken] at htable
    cases htable
  · rw [herror] at htable
    cases htable

/-- A request has a table if its answer is seen to be one. -/
theorem answers_of_isSome
    (h : (s.tryTable around course r).map (·.1.toOption.isSome) = .ended true) :
    ∃ table, s.Answers around course r table := by
  cases htable : s.tryTable around course r with
  | brokenOff =>
    rw [htable] at h
    cases h
  | ended answer =>
    rw [htable] at h
    simp only [answers_iff htable]
    cases hresult : answer.1 with
    | ok table => exact ⟨table, rfl⟩
    | error fault => simp [Attempt.map, hresult, Except.toOption] at h

theorem fails_of_isSome_eq_false
    (h : (s.tryTable around course r).map (·.1.toOption.isSome) = .ended false) :
    s.Fails around course r := by
  cases htable : s.tryTable around course r with
  | brokenOff => exact .inl htable
  | ended answer =>
    rw [htable] at h
    rw [fails_iff htable]
    cases hresult : answer.1 with
    | error fault => exact ⟨fault, rfl⟩
    | ok table => simp [Attempt.map, hresult, Except.toOption] at h

/-- A request that is not split finishes if the run of its one part does. -/
theorem finishesIn_of_isSome (hparts : s.planner.tryParts r = .ended (.ok [r]))
    (htimely : (course [r]).Timely)
    (h : (Run.tryStart around.threads around.overflow s.settings s.feed [r]).map
      (fun run => (run.play (course [r])).result.isSome) = .ended true) :
    s.FinishesIn around course r := by
  intro parts run hsplit hrun
  obtain rfl := Except.ok.inj (Attempt.ended.inj (hparts.symm.trans hsplit))
  rw [hrun] at h
  exact ⟨htimely, Attempt.ended.inj h⟩

theorem Roomy.tryParts_eq (h : s.Roomy r) : s.planner.tryParts r = .ended (s.planner.parts r) := by
  unfold Planner.tryParts Planner.parts
  split
  · rename_i henabled
    exact Request.tryDivide_of_not_oversized (h.parts henabled)
  · rfl

/-- With room for a batch and steady threads only the hand-off can break a run off. -/
theorem tryStart_eq (ha : around.Sound)
    (hbatch : Reservable s.settings.streams.batchSize Fragment.recordBytes) (parts : List Request) :
    Run.tryStart around.threads around.overflow s.settings s.feed parts =
      if s.settings.streams.bufferCapacity ≤ Handoff.mostPermits then
        .ended (Run.start s.settings s.feed parts)
      else .brokenOff := by
  rw [Run.tryStart, Handoff.tryMake_eq, Collector.start_of_reservable hbatch,
    Threads.eq_steady ha.pool ha.batches]
  by_cases hopens : s.settings.streams.bufferCapacity ≤ Handoff.mostPermits
  · rw [if_pos hopens, if_pos hopens]
    rfl
  · rw [if_neg hopens, if_neg hopens]
    rfl

/-- A service in sound surroundings, with room for all it reserves, does as the plain one. -/
theorem tryTable_eq (ha : around.Sound) (hroom : s.Roomy r) (hr : r.Valid) :
    s.tryTable around course r =
      if s.settings.streams.bufferCapacity ≤ Handoff.mostPermits then
        .ended (s.tableAlong course r)
      else .brokenOff := by
  obtain ⟨parts, hparts, -⟩ := s.planner.parts_ok hr
  unfold tryTable tryFetch tableAlong fetch
  rw [hroom.tryParts_eq, hparts, ha.build]
  simp only [tryStart_eq ha hroom.batch]
  split <;> rfl

theorem FinishesIn.finishes (h : s.FinishesIn around course r) (ha : around.Sound)
    (hroom : s.Roomy r) (hbuffer : s.settings.streams.bufferCapacity ≤ Handoff.mostPermits) :
    s.Finishes course r := by
  intro parts hparts
  refine h parts _ ?_ ?_
  · rw [hroom.tryParts_eq, hparts]
  · rw [tryStart_eq ha hroom.batch, if_pos hbuffer]

theorem Finishes.finishesIn (h : s.Finishes course r) (ha : around.Sound) (hroom : s.Roomy r) :
    s.FinishesIn around course r := by
  intro parts run hparts hrun
  rw [hroom.tryParts_eq] at hparts
  rw [tryStart_eq ha hroom.batch] at hrun
  split at hrun
  · cases hrun
    exact h parts (Attempt.ended.inj hparts)
  · cases hrun

/-- Two services of the same stored fragments, whatever their settings and whatever they served
before, with room for their batches and for the parts of a valid request, and with hand-offs that
both can be opened or neither. The parts share out what the request is served, and every course that
is begun can be brought to a finish. Courses that finish give the same table with both services, or
both fail. -/
theorem division_invisible {s₁ s₂ : Service} {fs : List Fragment} {delay₁ delay₂ : Nat}
    (hfeed₁ : s₁.feed = .stored fs delay₁ none) (hfeed₂ : s₂.feed = .stored fs delay₂ none)
    (hs₁ : s₁.settings.check = .ok ()) (hs₂ : s₂.settings.check = .ok ())
    {sources : List String} {start stop : Int} {r : Request}
    (hr : Request.make sources start stop = .ok r) (hroom₁ : s₁.Roomy r) (hroom₂ : s₂.Roomy r)
    (hbuffer : s₁.settings.streams.bufferCapacity ≤ Handoff.mostPermits ↔
      s₂.settings.streams.bufferCapacity ≤ Handoff.mostPermits) :
    (∀ s ∈ [s₁, s₂],
      s.feed.stream r = .ok ⟨Feed.served r fs, .exhausted⟩ ∧
      (∃ parts streams, s.planner.tryParts r = .ended (.ok parts) ∧
        parts.mapM s.feed.stream = .ok streams ∧
        (∀ stream ∈ streams, stream.ending = .exhausted) ∧
        (streams.flatMap Stream.fragments).Perm (Feed.served r fs)) ∧
      ∀ course : Course, (∀ parts, (course parts).Timely) →
        ∃ whole : Course, (∀ parts, (course parts).steps <+: (whole parts).steps) ∧
          ∀ around : Surroundings, around.Sound → s.FinishesIn around whole r) ∧
    ∀ around₁ around₂ : Surroundings, around₁.Sound → around₂.Sound →
      ∀ course₁ course₂ : Course,
        s₁.FinishesIn around₁ course₁ r → s₂.FinishesIn around₂ course₂ r →
        (s₁.Fails around₁ course₁ r ∧ s₂.Fails around₂ course₂ r) ∨
        ∃ table, s₁.Answers around₁ course₁ r table ∧ s₂.Answers around₂ course₂ r table := by
  obtain ⟨rfl, hvalid⟩ := Request.make_eq_ok_iff.mp hr
  constructor
  · intro s hs
    obtain ⟨⟨delay, hfeed⟩, hcheck, hroom⟩ : (∃ delay, s.feed = .stored fs delay none) ∧
        s.settings.check = .ok () ∧ s.Roomy ⟨sources, start, stop⟩ := by
      rcases List.mem_cons.mp hs with rfl | hs
      · exact ⟨⟨_, hfeed₁⟩, hs₁, hroom₁⟩
      · obtain rfl := List.mem_singleton.mp hs
        exact ⟨⟨_, hfeed₂⟩, hs₂, hroom₂⟩
    refine ⟨by rw [hfeed, Feed.stream_stored], ?_, fun course hcourse => ?_⟩
    · rw [hroom.tryParts_eq]
      simpa only [Attempt.ended.injEq] using streams_of_parts hfeed hvalid
    · obtain ⟨whole, hprefix, hfinishes⟩ := exists_finishes hfeed hcheck hvalid hcourse
      exact ⟨whole, hprefix, fun around ha => hfinishes.finishesIn ha hroom⟩
  · intro around₁ around₂ ha₁ ha₂ course₁ course₂ hfinishes₁ hfinishes₂
    have htable₁ : s₁.tryTable around₁ course₁ _ = _ := tryTable_eq ha₁ hroom₁ hvalid
    have htable₂ : s₂.tryTable around₂ course₂ _ = _ := tryTable_eq ha₂ hroom₂ hvalid
    by_cases hopens₁ : s₁.settings.streams.bufferCapacity ≤ Handoff.mostPermits
    · have hopens₂ := hbuffer.mp hopens₁
      rw [if_pos hopens₁] at htable₁
      rw [if_pos hopens₂] at htable₂
      simp only [fails_iff htable₁, fails_iff htable₂, answers_iff htable₁, answers_iff htable₂]
      exact tableAlong_agree hfeed₁ hfeed₂ hvalid (hfinishes₁.finishes ha₁ hroom₁ hopens₁)
        (hfinishes₂.finishes ha₂ hroom₂ hopens₂)
    · rw [if_neg hopens₁] at htable₁
      rw [if_neg (mt hbuffer.mpr hopens₁)] at htable₂
      exact .inl ⟨.inl htable₁, .inl htable₂⟩

/-- Two sources over two milliseconds. -/
def held : List Fragment :=
  [⟨"a", .int, [.int 5, .int 6], .list [0, 10], 8⟩, ⟨"b", .bool, [.bool true], .list [1500000], 1⟩,
    ⟨"a", .int, [.int 1], .list [1000000], 8⟩]

/-- No request is split. -/
def undivided : Service where
  settings := { splitting := { enabled := false } }
  feed := .stored held 3 none
  counters := {}

/-- One millisecond a part, one part at a time, one fragment a batch. -/
def divided : Service where
  settings :=
    { splitting := { longestMillis := 1 }
      streams := { most := 1, batchSize := 1 } }
  feed := .stored held 0 none
  counters := {}

/-- Both sources, as long as they are held. -/
def twoMillis : Request := ⟨["a", "b"], 0, 2000000⟩

/-- One worker after the other, for parts of at most so many fragments. -/
def inTurn (most : Nat) : Course := fun parts =>
  let bring (i : Nat) : List Run.Action :=
    [.enter i, .ask i] ++
      (List.replicate most [.fetch i, .offer i, .deliver i, .poll, .ask i]).flatten ++
      [.fetch i, .join i]
  let actions := (List.range parts.length).flatMap bring ++ [.close, .poll, .conclude]
  ⟨actions.map fun a => (1, a), 0⟩

/-- Nothing fails. -/
def quiet : Surroundings := ⟨.steady, "", none⟩

theorem sound_quiet : quiet.Sound := ⟨fun _ => rfl, fun _ => rfl, rfl⟩

theorem finishesIn_undivided : undivided.FinishesIn quiet (inTurn 3) twoMillis :=
  finishesIn_of_isSome rfl (by decide) (by decide +kernel)

theorem roomy_undivided : undivided.Roomy twoMillis := ⟨by decide, by decide⟩

theorem answers_undivided : ∃ table, undivided.Answers quiet (inTurn 3) twoMillis table := by
  have hfinishes := finishesIn_undivided.finishes sound_quiet roomy_undivided (by decide)
  simp only [answers_iff (tryTable_eq sound_quiet roomy_undivided (by decide : twoMillis.Valid))]
  exact (tableAlong_ok_iff rfl (by decide) hfinishes).mpr ⟨by decide, by decide⟩

theorem division_invisible_divided :
    ∃ table, undivided.Answers quiet (inTurn 3) twoMillis table ∧
      divided.Answers quiet (inTurn 2) twoMillis table := by
  have hroom : divided.Roomy twoMillis := ⟨by decide, by decide⟩
  have hdivided : divided.FinishesIn quiet (inTurn 2) twoMillis := by
    intro parts run hparts hrun
    have htwo : divided.planner.tryParts twoMillis =
        .ended (.ok [⟨["a", "b"], 0, 1000000⟩, ⟨["a", "b"], 1000000, 2000000⟩]) := rfl
    obtain rfl := Except.ok.inj (Attempt.ended.inj (htwo.symm.trans hparts))
    obtain rfl := Attempt.ended.inj ((tryStart_eq sound_quiet hroom.batch _).symm.trans hrun)
    exact ⟨by decide, by decide +kernel⟩
  have hrequest : Request.make ["a", "b"] 0 2000000 = .ok twoMillis := rfl
  obtain ⟨-, htables⟩ := @division_invisible undivided divided held 3 0 rfl rfl rfl rfl _ _ _ _
    hrequest roomy_undivided hroom (by decide)
  rcases htables _ _ sound_quiet sound_quiet _ _ finishesIn_undivided hdivided with
    ⟨hfails, -⟩ | htable
  · obtain ⟨table, htable⟩ := answers_undivided
    exact absurd htable hfails.not_answers
  · exact htable

/-- A batch size that counts to the end of a word. -/
def crowded : Service :=
  { undivided with
    settings := { undivided.settings with streams := { batchSize := mostCount } } }

/-- No pool can be built. -/
def poolless : Surroundings := { quiet with threads := { Threads.steady with
  noPool := fun _ => some "" } }

/-- A service of the first fragment alone. -/
def single : Service := { undivided with feed := .stored (held.take 1) 0 none }

/-- Every batch is distributed. -/
def distributed : Service :=
  { single with settings := { single.settings with grouping := { pivot := 0 } } }

/-- A service without fragments. -/
def bare : Service where
  settings := { splitting := { enabled := false } }
  feed := .stored [] 0 none
  counters := {}

/-- One source and one millisecond a part. -/
def finest : Service :=
  { bare with settings := { splitting := { mostSources := 1, longestMillis := 1 } } }

/-- As many different names. -/
def names (n : Nat) : List String :=
  (List.range n).map fun i => String.ofList (List.replicate (i + 1) 'a')

theorem length_names (n : Nat) : (names n).length = n := by simp [names]

theorem make_names (n : Nat) {stop : Int} (hn : 0 < n) (hstop : 0 < stop) :
    Request.make (names n) 0 stop = .ok ⟨names n, 0, stop⟩ := by
  refine Request.make_eq_ok_iff.mpr ⟨rfl, ?_, hstop, ?_, ?_⟩
  · exact List.ne_nil_of_length_pos ((length_names n).symm ▸ hn)
  · simp [names]
  · refine List.Nodup.map (fun i j h => ?_) List.nodup_range
    simpa using congrArg String.length h

/-- Thirty thousand sources from the epoch to the last instant. -/
def everything : Request := ⟨names 30000, 0, Instant.greatest⟩

theorem make_everything : Request.make (names 30000) 0 Instant.greatest = .ok everything :=
  make_names 30000 (by decide) (by decide)

theorem tryParts_finest : finest.planner.tryParts everything = .brokenOff := by
  have hplan : finest.planner.plan everything finest.planner.policy =
      ⟨.grid, 30000, 9223372036855⟩ := by
    have hlength : everything.sources.length = 30000 := by rw [everything, length_names]
    unfold Planner.plan
    rw [hlength]
    decide
  unfold Planner.tryParts
  rw [if_pos (by decide), hplan, Request.tryDivide_eq_brokenOff_iff]
  decide

/-- Two services of the same fragments, both with their settings in order, and a request that
finishes with both, but has a table with the first only. -/
structure Parted (s₁ s₂ : Service) (around : Surroundings) (course : Course) (r : Request) :
    Prop where
  settings₁ : s₁.settings.check = .ok ()
  settings₂ : s₂.settings.check = .ok ()
  feed : ∃ fs delay, s₁.feed = .stored fs delay none ∧ s₂.feed = .stored fs delay none
  request : ∃ sources start stop, Request.make sources start stop = .ok r
  finishes₁ : s₁.FinishesIn around course r
  finishes₂ : s₂.FinishesIn around course r
  answers : ∃ table, s₁.Answers around course r table
  fails : s₂.Fails around course r

/-- There may be no room for a batch, none for the parts, or no pool for what is distributed. -/
theorem division_visible :
    quiet.Sound ∧ Parted undivided crowded quiet (inTurn 3) twoMillis ∧
      Parted bare finest quiet (inTurn 0) everything ∧
      Parted single distributed poolless (inTurn 1) twoMillis where
  left := sound_quiet
  right.left :=
    { settings₁ := rfl
      settings₂ := rfl
      feed := ⟨_, _, rfl, rfl⟩
      request := ⟨["a", "b"], 0, 2000000, rfl⟩
      finishes₁ := finishesIn_undivided
      finishes₂ := finishesIn_of_isSome rfl (by decide) (by decide +kernel)
      answers := answers_undivided
      fails := fails_of_isSome_eq_false (by decide +kernel) }
  right.right.left :=
    { settings₁ := rfl
      settings₂ := rfl
      feed := ⟨_, _, rfl, rfl⟩
      request := ⟨_, _, _, make_everything⟩
      finishes₁ := finishesIn_of_isSome rfl (by decide) (by decide +kernel)
      finishes₂ := fun parts run hparts _ => by
        rw [tryParts_finest] at hparts
        cases hparts
      answers := answers_of_isSome (by decide +kernel)
      fails := .inl (by rw [tryTable, tryFetch, tryParts_finest]; rfl) }
  right.right.right :=
    { settings₁ := rfl
      settings₂ := rfl
      feed := ⟨_, _, rfl, rfl⟩
      request := ⟨["a", "b"], 0, 2000000, rfl⟩
      finishes₁ := finishesIn_of_isSome rfl (by decide) (by decide +kernel)
      finishes₂ := finishesIn_of_isSome rfl (by decide) (by decide +kernel)
      answers := answers_of_isSome (by decide +kernel)
      fails := fails_of_isSome_eq_false (by decide +kernel) }

end Service

end SeriesTable
