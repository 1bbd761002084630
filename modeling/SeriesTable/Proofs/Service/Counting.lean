import SeriesTable.Proofs.Region.Axes
import SeriesTable.Proofs.Run.Counting
import SeriesTable.Proofs.Service.Division

/-
  The counters of a service over the requests that it has served. A counter is a word, so what it
  shows is compared with the count itself (`Counts.Shows`): after any requests, whatever came of
  them, no more parts were completed than issued and no more fragments rejected than received. A
  request that has a table adds to the counters what its fragments say (`Adds`), and one that fails
  is not counted as served. This is of the plain service; what may fail around a service takes
  nothing away from it (`tryTable_truthful`).

  Main statement: `counters_truthful`.
-/

namespace SeriesTable

namespace Service

variable {s : Service} {fs : List Fragment} {delay : Nat} {failing : Option String}
  {course : Course} {r : Request}

/-! ## What a request does to the service -/

/-- The run of the parts of a request. -/
def runOf (s : Service) (course : Course) (parts : List Request) : Run :=
  (Run.start s.settings s.feed parts).play (course parts)

/-- The counts of a run are added to the counters of the service, whatever it came to. -/
theorem conclude_snd (s : Service) (parts : List Request) (script : Run.Script) (start : Run) :
    ∃ timeouts, (s.conclude parts script start).2 = { s with counters :=
      { countRun (s.counters.addParts parts.length) (start.play script) with timeouts } } := by
  dsimp only [conclude]
  split <;> exact ⟨_, rfl⟩

theorem result_of_conclude {parts : List Request} {script : Run.Script} {start : Run}
    {g : Grouping} {elapsed : Nat} (h : (s.conclude parts script start).1 = .ok (g, elapsed)) :
    (start.play script).result = some (.ok g) := by
  dsimp only [conclude] at h
  cases hrun : (start.play script).result with
  | none =>
    rw [hrun] at h
    cases h
  | some result =>
    cases result with
    | error fault =>
      rw [hrun] at h
      cases h
    | ok g' =>
      rw [hrun] at h
      cases h
      rfl

/-- A request that is not divided does nothing; otherwise the counts of its run are added. -/
theorem fetch_cases (s : Service) (course : Course) (r : Request) :
    (∃ fault, s.planner.parts r = .error fault ∧ s.fetch course r = (.error fault, s)) ∨
    ∃ parts timeouts, s.planner.parts r = .ok parts ∧
      (s.fetch course r).2 = { s with counters := { countRun (s.counters.addParts parts.length)
        (s.runOf course parts) with timeouts } } ∧
      ∀ g elapsed, (s.fetch course r).1 = .ok (g, elapsed) →
        (s.runOf course parts).result = some (.ok g) := by
  cases hparts : s.planner.parts r with
  | error fault => exact .inl ⟨fault, rfl, by rw [fetch, hparts]⟩
  | ok parts =>
    have hfetch : s.fetch course r =
        s.conclude parts (course parts) (Run.start s.settings s.feed parts) := by
      rw [fetch, hparts]
    obtain ⟨timeouts, hcounters⟩ :=
      s.conclude_snd parts (course parts) (Run.start s.settings s.feed parts)
    rw [hfetch]
    exact .inr ⟨parts, timeouts, rfl, hcounters, fun g elapsed hok => result_of_conclude hok⟩

/-- A request that has no table leaves what fetching it left; one that has a table is counted. -/
theorem tableAlong_cases (s : Service) (course : Course) (r : Request) :
    (∃ fault, s.tableAlong course r = (.error fault, (s.fetch course r).2)) ∨
    ∃ g elapsed book merged, (s.fetch course r).1 = .ok (g, elapsed) ∧
      bind g.list = .ok (book, merged) ∧
      s.tableAlong course r = (.ok (PagedTable.ofBook book), { (s.fetch course r).2 with
        counters := ((s.fetch course r).2.counters.addResolution g.list.length merged).addRequest
          (elapsed / 1000) (elapsed % 1000 * 1000000) }) := by
  unfold tableAlong
  rcases hfetch : s.fetch course r with ⟨fetched, t⟩
  cases fetched with
  | error fault => exact .inl ⟨fault, rfl⟩
  | ok fetched =>
    obtain ⟨g, elapsed⟩ := fetched
    cases hbind : bind g.list with
    | error fault => exact .inl ⟨fault, by simp only [build, hbind]⟩
    | ok bound => exact .inr ⟨g, elapsed, bound.1, bound.2, rfl, hbind, by simp only [build, hbind]⟩

/-! ## What the counters add up to -/

/-- What is counted, without an end to the words: the parts issued and completed, and the fragments
received and rejected. -/
structure Counts where
  issued : Nat
  completed : Nat
  received : Nat
  rejected : Nat
  deriving DecidableEq, Repr

namespace Counts

/-- The counts of a call that did nothing. -/
def none : Counts := ⟨0, 0, 0, 0⟩

/-- The counts of two calls together. -/
def add (n m : Counts) : Counts :=
  ⟨n.issued + m.issued, n.completed + m.completed, n.received + m.received,
    n.rejected + m.rejected⟩

/-- No more was completed than issued, and no more rejected than received. -/
def Truthful (n : Counts) : Prop := n.completed ≤ n.issued ∧ n.rejected ≤ n.received

/-- The counters show the counts, as far as words can. -/
structure Shows (c : Counters) (n : Counts) : Prop where
  issued : c.partsIssued = n.issued % Counters.wordSize
  completed : c.partsCompleted = n.completed % Counters.wordSize
  received : c.received = n.received % Counters.wordSize
  rejected : c.rejected = n.rejected % Counters.wordSize

theorem add_assoc (n m k : Counts) : (n.add m).add k = n.add (m.add k) := by
  simp [add, Nat.add_assoc]

theorem none_add (n : Counts) : none.add n = n := by simp [add, none]

theorem shows_none : Shows {} none := ⟨rfl, rfl, rfl, rfl⟩

theorem Truthful.add {n m : Counts} (hn : n.Truthful) (hm : m.Truthful) : (n.add m).Truthful :=
  ⟨Nat.add_le_add hn.1 hm.1, Nat.add_le_add hn.2 hm.2⟩

end Counts

/-- What a request counts. -/
def counts (s : Service) (course : Course) (r : Request) : Counts :=
  match s.planner.parts r with
  | .error _ => .none
  | .ok parts =>
    let run := s.runOf course parts
    ⟨parts.length, run.tally.completed, run.tally.received, run.collector.rejected⟩

/-- What requests count one after another. -/
def total (s : Service) : List (Course × Request) → Counts
  | [] => .none
  | (course, r) :: calls => (s.counts course r).add (s.total calls)

/-- The service after requests one after another. -/
def after (s : Service) (calls : List (Course × Request)) : Service :=
  calls.foldl (fun s call => (s.tableAlong call.1 call.2).2) s

theorem counts_truthful (hs : s.settings.InBounds) (course : Course) (r : Request) :
    (s.counts course r).Truthful := by
  unfold counts
  cases hparts : s.planner.parts r with
  | error fault => exact ⟨Nat.le_refl _, Nat.le_refl _⟩
  | ok parts =>
    have hbalanced := (Run.balanced_start s.settings hs.streams s.feed parts).play (course parts)
    have hbacked := (Run.backed_start s.settings s.feed parts).play (course parts)
    exact ⟨hbalanced.completed_le, hbacked.rejected_le⟩

theorem total_truthful (hs : s.settings.InBounds) (calls : List (Course × Request)) :
    (s.total calls).Truthful := by
  induction calls with
  | nil => exact ⟨Nat.le_refl _, Nat.le_refl _⟩
  | cons call calls ih => exact (counts_truthful hs call.1 call.2).add ih

/-- A request changes nothing of a service but its counters. -/
theorem tableAlong_snd (s : Service) (course : Course) (r : Request) :
    ∃ counters, (s.tableAlong course r).2 = { s with counters } := by
  have hfetch : ∃ counters, (s.fetch course r).2 = { s with counters } := by
    rcases s.fetch_cases course r with ⟨_, -, hfetch⟩ | ⟨_, _, -, hfetch, -⟩
    · exact ⟨s.counters, by rw [hfetch]⟩
    · exact ⟨_, hfetch⟩
  obtain ⟨counters, hfetch⟩ := hfetch
  rcases s.tableAlong_cases course r with ⟨_, htable⟩ | ⟨_, _, _, _, -, -, htable⟩
  · exact ⟨counters, by rw [htable, hfetch]⟩
  · exact ⟨_, by rw [htable, hfetch]⟩

theorem after_eq (s : Service) (calls : List (Course × Request)) :
    ∃ counters, s.after calls = { s with counters } := by
  induction calls generalizing s with
  | nil => exact ⟨s.counters, rfl⟩
  | cons call calls ih =>
    obtain ⟨counters, htable⟩ := s.tableAlong_snd call.1 call.2
    obtain ⟨later, hafter⟩ := ih (s.tableAlong call.1 call.2).2
    exact ⟨later, by rw [after, List.foldl_cons, ← after, hafter, htable]⟩

/-- What requests count does not depend on what the counters show. -/
theorem total_with (s : Service) (counters : Counters) (calls : List (Course × Request)) :
    { s with counters }.total calls = s.total calls := by
  induction calls with
  | nil => rfl
  | cons call calls ih => exact congrArg (Counts.add _) ih

theorem wrapped_mod (n k : Nat) :
    Counters.wrapped (n % Counters.wordSize) k = (n + k) % Counters.wordSize :=
  Nat.mod_add_mod ..

theorem shows_conclude {n : Counts} (h : n.Shows s.counters) (parts : List Request)
    (script : Run.Script) (start : Run) :
    let run := start.play script
    (n.add ⟨parts.length, run.tally.completed, run.tally.received, run.collector.rejected⟩).Shows
      (s.conclude parts script start).2.counters := by
  obtain ⟨timeouts, hcounters⟩ := s.conclude_snd parts script start
  rw [hcounters]
  refine ⟨?_, ?_, ?_, ?_⟩
  · exact (congrArg (Counters.wrapped · _) h.issued).trans (wrapped_mod ..)
  · exact (congrArg (Counters.wrapped · _) h.completed).trans (wrapped_mod ..)
  · exact (congrArg (Counters.wrapped · _) h.received).trans (wrapped_mod ..)
  · exact (congrArg (Counters.wrapped · _) h.rejected).trans (wrapped_mod ..)

/-- A service that builds a table counts no parts and no fragments for it. -/
theorem shows_build {n : Counts} (h : n.Shows s.counters) (lost : Option String)
    (fetched : Except Fault (Grouping × Nat)) : n.Shows (s.build lost fetched).2.counters := by
  unfold build
  split
  · exact h
  · split
    · exact h
    · split
      · exact h
      · exact ⟨h.issued, h.completed, h.received, h.rejected⟩

theorem shows_tableAlong {n : Counts} (h : n.Shows s.counters) (course : Course) (r : Request) :
    (n.add (s.counts course r)).Shows (s.tableAlong course r).2.counters := by
  have hfetch : (n.add (s.counts course r)).Shows (s.fetch course r).2.counters := by
    unfold counts fetch
    cases s.planner.parts r with
    | error fault => exact h
    | ok parts => exact shows_conclude h parts (course parts) _
  exact shows_build hfetch none _

theorem shows_after {n : Counts} (h : n.Shows s.counters) (calls : List (Course × Request)) :
    (n.add (s.total calls)).Shows (s.after calls).counters := by
  induction calls generalizing s n with
  | nil => exact h
  | cons call calls ih =>
    obtain ⟨counters, htable⟩ := s.tableAlong_snd call.1 call.2
    have hrest := ih (shows_tableAlong h call.1 call.2)
    rw [htable, total_with, Counts.add_assoc, ← htable] at hrest
    exact hrest

/-! ## What a request adds -/

/-- What a request adds to the counters that has a table of these fragments: its parts, its
fragments, their axes, and how many components of overlapping axes are not single axes. -/
structure Adds (size : Nat) (parts : List Request) (fs : List Fragment) (c c' : Counters) :
    Prop where
  issued : c'.partsIssued = Counters.wrapped c.partsIssued parts.length
  completed : c'.partsCompleted = Counters.wrapped c.partsCompleted parts.length
  received : c'.received = Counters.wrapped c.received fs.length
  rejected : c'.rejected = c.rejected
  bytes : c'.bytes = Counters.held c.bytes (fs.map Fragment.size).sum
  batches : ∃ n, runsNeeded fs.length size ≤ n ∧ n ≤ fs.length ∧
    c'.batches = Counters.wrapped c.batches n
  blocks : c'.blocks = Counters.wrapped c.blocks (fs.map Fragment.axis).dedup.length
  components : ∃ groups, Axis.Components (fs.map Fragment.axis) groups
  mergedRegions : ∀ groups, Axis.Components (fs.map Fragment.axis) groups →
    c'.mergedRegions =
      Counters.wrapped c.mergedRegions (groups.countP fun g => 2 ≤ g.length)
  requests : c'.requests = Counters.wrapped c.requests 1

/-- The counters say the same of what was served. -/
structure SameServed (c c' : Counters) : Prop where
  requests : c'.requests = c.requests
  blocks : c'.blocks = c.blocks
  mergedRegions : c'.mergedRegions = c.mergedRegions

theorem sameServed_fetch (s : Service) (course : Course) (r : Request) :
    SameServed s.counters (s.fetch course r).2.counters := by
  rcases s.fetch_cases course r with ⟨_, -, hfetch⟩ | ⟨_, _, -, hfetch, -⟩
  · rw [hfetch]
    exact ⟨rfl, rfl, rfl⟩
  · rw [hfetch]
    exact ⟨rfl, rfl, rfl⟩

theorem sameServed_of_error {fault : Fault} (h : (s.tableAlong course r).1 = .error fault) :
    SameServed s.counters (s.tableAlong course r).2.counters := by
  rcases s.tableAlong_cases course r with ⟨_, htable⟩ | ⟨_, _, _, _, -, -, htable⟩
  · rw [htable]
    exact sameServed_fetch s course r
  · rw [htable] at h
    cases h

theorem merged_of_bind {blocks : List Block} {book : Book} {merged : Nat}
    (h : bind blocks = .ok (book, merged)) : merged = (Resolution.ofBlocks blocks).mergedCount := by
  simp only [bind, Bind.bind, Except.bind] at h
  split at h
  · cases h
  · split at h
    · cases h
    · cases h
      rfl

theorem adds_of_ok (hfeed : s.feed = .stored fs delay failing) (hs : s.settings.InBounds)
    (hword : s.counters.rejected < Counters.wordSize) (hr : r.Valid)
    (hfinishes : s.Finishes course r) {table : PagedTable}
    (h : (s.tableAlong course r).1 = .ok table) :
    ∃ parts, s.planner.parts r = .ok parts ∧
      Adds s.settings.streams.batchSize parts (Feed.served r fs) s.counters
        (s.tableAlong course r).2.counters := by
  rcases s.tableAlong_cases course r with
    ⟨_, htable⟩ | ⟨g, elapsed, book, merged, hok, hbind, htable⟩
  · rw [htable] at h
    cases h
  rcases s.fetch_cases course r with ⟨_, -, hfetch⟩ | ⟨parts, _, hparts, hfetch, hresult⟩
  · rw [hfetch] at hok
    cases hok
  have hrun := hresult g elapsed hok
  have htimely := (hfinishes parts hparts).1
  have horderly := (Run.orderly_start s.settings s.feed parts).play htimely
  obtain ⟨-, hexhausts, hkeeps⟩ := horderly.result_ok hrun
  have hperm := perm_served hfeed hr hparts hexhausts
  have hholds := hkeeps.holds.perm hperm
  have hcounted := Run.counted_of_ok hs s.feed parts htimely hrun
  have hlength := hperm.length_eq
  have hcomponents := hholds.axisComponents
  refine ⟨parts, hparts, ?_⟩
  rw [htable, hfetch]
  constructor
  case issued | requests => rfl
  case completed => exact congrArg (Counters.wrapped s.counters.partsCompleted) hcounted.completed
  case received =>
    exact congrArg (Counters.wrapped s.counters.received) (hcounted.received.trans hlength)
  case rejected =>
    have hnone := congrArg (Counters.wrapped s.counters.rejected) hcounted.rejected
    exact hnone.trans (Nat.mod_eq_of_lt hword)
  case bytes =>
    have hsum := hcounted.bytes.trans (hperm.map Fragment.size).sum_eq
    exact congrArg (Counters.held s.counters.bytes) hsum
  case batches => exact ⟨_, hlength ▸ hcounted.le_batches, hlength ▸ hcounted.batches_le, rfl⟩
  case blocks =>
    have hblocks : g.list.length = ((Feed.served r fs).map Fragment.axis).dedup.length := by
      rw [← hholds.perm_axes.length_eq, List.length_map]
    exact congrArg (Counters.wrapped s.counters.blocks) hblocks
  case components => exact ⟨_, hcomponents⟩
  case mergedRegions =>
    intro groups hgroups
    have hmerged : merged = groups.countP fun g => 2 ≤ g.length := by
      rw [merged_of_bind hbind, Resolution.mergedCount_eq, hcomponents.countP_eq hgroups]
    exact congrArg (Counters.wrapped s.counters.mergedRegions) hmerged

theorem make_eq_ok_iff {settings : Settings} {feed : Feed} :
    make settings feed = .ok s ↔ settings.InBounds ∧ s = ⟨settings, feed, {}⟩ := by
  rw [← Settings.check_eq_ok_iff]
  unfold make
  cases settings.check with
  | error fault => exact iff_of_false (fun h => by cases h) fun h => by cases h.1
  | ok _ =>
    constructor
    · intro h
      cases h
      exact ⟨rfl, rfl⟩
    · rintro ⟨-, rfl⟩
      rfl

/-- After any requests the counters show what was counted: no more parts completed than issued and
no more fragments rejected than received, as long as the words that show them have not wrapped
around. Of a request that then finishes, the counters gain exactly what its table is made of, or
nothing of what was served if it has none. -/
theorem counters_truthful {settings : Settings}
    (hmake : make settings (.stored fs delay failing) = .ok s)
    (calls : List (Course × Request)) :
    let n := s.total calls
    let c := (s.after calls).counters
    (n.Shows c ∧ n.Truthful) ∧
    (n.issued < Counters.wordSize → c.partsCompleted ≤ c.partsIssued) ∧
    (n.received < Counters.wordSize → c.rejected ≤ c.received) ∧
    ∀ (course : Course) (sources : List String) (start stop : Int) (r : Request),
      Request.make sources start stop = .ok r → s.Finishes course r →
        let answer := (s.after calls).tableAlong course r
        (∀ table, answer.1 = .ok table → ∃ parts, s.planner.parts r = .ok parts ∧
          Adds settings.streams.batchSize parts (Feed.served r fs) c answer.2.counters) ∧
        ∀ fault, answer.1 = .error fault → SameServed c answer.2.counters := by
  intro n c
  obtain ⟨hs, rfl⟩ := make_eq_ok_iff.mp hmake
  have htruthful : n.Truthful := total_truthful hs calls
  have hshows : n.Shows c := by
    have hshows := shows_after Counts.shows_none calls
      (s := ⟨settings, .stored fs delay failing, {}⟩)
    rwa [Counts.none_add] at hshows
  refine ⟨⟨hshows, htruthful⟩, fun hword => ?_, fun hword => ?_, ?_⟩
  · rw [hshows.issued, hshows.completed, Nat.mod_eq_of_lt hword]
    exact (Nat.mod_le ..).trans htruthful.1
  · rw [hshows.received, hshows.rejected, Nat.mod_eq_of_lt hword]
    exact (Nat.mod_le ..).trans htruthful.2
  · intro course sources start stop r hr hfinishes
    obtain ⟨rfl, hvalid⟩ := Request.make_eq_ok_iff.mp hr
    obtain ⟨counters, hafter⟩ := after_eq ⟨settings, .stored fs delay failing, {}⟩ calls
    have hc : c = counters := congrArg Service.counters hafter
    have hrejected : c.rejected < Counters.wordSize := by
      rw [hshows.rejected]
      exact Nat.mod_lt _ (by decide)
    refine ⟨fun table htable => ?_, fun fault hfault => sameServed_of_error hfault⟩
    rw [hafter] at htable
    rw [hc] at hrejected
    rw [hc, hafter]
    exact adds_of_ok (s := ⟨settings, .stored fs delay failing, counters⟩) rfl hs hrejected hvalid
      hfinishes htable

/-- Two fragments that overlap, and one in a later millisecond. -/
def overlapping : List Fragment :=
  [⟨"a", .int, [.int 5, .int 6], .list [0, 10], 8⟩,
    ⟨"b", .bool, [.bool true, .bool false], .list [5, 20], 2⟩,
    ⟨"a", .int, [.int 1], .list [1000000], 8⟩]

/-- One millisecond a part, two fragments a batch. -/
def watched : Service where
  settings :=
    { splitting := { longestMillis := 1 }
      streams := { batchSize := 2 } }
  feed := .stored overlapping 0 none
  counters := {}

/-- The second time that the same request is served. -/
theorem counters_truthful_again :
    let c := (watched.after [(inTurn 2, twoMillis)]).counters
    ∃ table parts, watched.planner.parts twoMillis = .ok parts ∧
      ((watched.after [(inTurn 2, twoMillis)]).tableAlong (inTurn 2) twoMillis).1 = .ok table ∧
      c.partsCompleted ≤ c.partsIssued ∧ c.rejected ≤ c.received ∧
      Adds 2 parts overlapping c
        ((watched.after [(inTurn 2, twoMillis)]).tableAlong (inTurn 2) twoMillis).2.counters := by
  intro c
  have hfinishes : watched.Finishes (inTurn 2) twoMillis := by
    intro parts hparts
    have htwo : watched.planner.parts twoMillis =
        .ok [⟨["a", "b"], 0, 1000000⟩, ⟨["a", "b"], 1000000, 2000000⟩] := rfl
    obtain rfl := Except.ok.inj (htwo.symm.trans hparts)
    exact ⟨by decide, by decide +kernel⟩
  have hmake : make watched.settings (.stored overlapping 0 none) = .ok watched := rfl
  obtain ⟨-, hparts, hfragments, hcall⟩ := counters_truthful hmake [(inTurn 2, twoMillis)]
  obtain ⟨hadds, -⟩ := hcall (inTurn 2) ["a", "b"] 0 2000000 twoMillis rfl hfinishes
  obtain ⟨counters, hafter⟩ := after_eq watched [(inTurn 2, twoMillis)]
  obtain ⟨table, htable⟩ : ∃ table,
      ((watched.after [(inTurn 2, twoMillis)]).tableAlong (inTurn 2) twoMillis).1 = .ok table := by
    rw [hafter]
    exact (tableAlong_ok_iff (s := { watched with counters }) rfl (by decide) hfinishes).mpr
      ⟨by decide, by decide⟩
  obtain ⟨parts, hsplit, hadds⟩ := hadds table htable
  have hserved : Feed.served twoMillis overlapping = overlapping := by decide
  rw [hserved] at hadds
  exact ⟨table, parts, hsplit, htable, hparts (by decide +kernel), hfragments (by decide +kernel),
    hadds⟩

end Service

end SeriesTable
