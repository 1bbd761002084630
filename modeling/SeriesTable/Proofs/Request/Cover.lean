import SeriesTable.Request.Division
import SeriesTable.Proofs.Lists

/-
  Division covers a request exactly. A split that is not refused cuts the sources into groups and
  the range into intervals, whatever its strategy (`divide_eq_byGrid`); the parts are the groups
  over the intervals. Groups are runs of the sources, intervals tile the range, and so every source
  is asked for at every instant of the range by one part, and nothing else by any part.

  Every number that an interval is computed from can be stored (`storable_step`): the steps before
  interval `i` take `i * (duration / count)`, which is at most the duration.

  A grid reserves room for the product of its counts first, and breaks off if there cannot be so
  much (`Split.Oversized`), whether or not there would be as many parts. So do intervals, but only
  if they are not refused.

  Main statement: `tryDivide_covers`, for every request and every split.
-/

namespace SeriesTable

/-! ## Groups of sources -/

theorem flatten_consecutive {α : Type} (size : Nat) (xs : List α) :
    (consecutive size xs).flatten = xs := by
  fun_induction consecutive size xs with
  | case1 => rfl
  | case2 x xs ih =>
    rw [List.flatten_cons, ih, List.cons_append, List.take_append_drop]

theorem ne_nil_of_mem_consecutive {α : Type} {size : Nat} {xs group : List α}
    (h : group ∈ consecutive size xs) : group ≠ [] := by
  fun_induction consecutive size xs with
  | case1 => simp at h
  | case2 x xs ih =>
    rcases List.mem_cons.mp h with rfl | h
    · simp
    · exact ih h

/-- One run holds everything if it may be that long. -/
theorem consecutive_of_length_le {α : Type} {size : Nat} {xs : List α} (hx : xs ≠ [])
    (h : xs.length ≤ size) : consecutive size xs = [xs] := by
  cases xs with
  | nil => exact absurd rfl hx
  | cons x xs =>
    rw [List.length_cons] at h
    rw [consecutive, List.take_of_length_le (by omega), List.drop_eq_nil_of_le (by omega),
      consecutive]

/-- Of groups without repetitions, one holds each of the elements. -/
theorem countP_mem_groups {α : Type} [DecidableEq α] {groups : List (List α)}
    (h : groups.flatten.Nodup) (x : α) :
    groups.countP (fun group => x ∈ group) = if x ∈ groups.flatten then 1 else 0 := by
  induction groups with
  | nil => rfl
  | cons group groups ih =>
    rw [List.flatten_cons, List.nodup_append] at h
    rw [List.countP_cons, ih h.2.1, List.flatten_cons]
    by_cases hx : x ∈ group
    · have hnot : x ∉ groups.flatten := fun hy => h.2.2 x hx x hy rfl
      simp [hx, hnot]
    · simp [hx]

/-! ## Intervals -/

/-- Intervals, each with an instant, that follow one another from `start` to `stop`. -/
def Tiles (start stop : Int) : List (Int × Int) → Prop
  | [] => start = stop
  | c :: rest => c.1 = start ∧ c.1 < c.2 ∧ Tiles c.2 stop rest

theorem Tiles.append {a b c : Int} {xs ys : List (Int × Int)} (hx : Tiles a b xs)
    (hy : Tiles b c ys) : Tiles a c (xs ++ ys) := by
  induction xs generalizing a with
  | nil => rwa [List.nil_append, show a = b from hx]
  | cons x xs ih => exact ⟨hx.1, hx.2.1, ih hx.2.2⟩

theorem Tiles.le {a b : Int} {xs : List (Int × Int)} (h : Tiles a b xs) : a ≤ b := by
  induction xs generalizing a with
  | nil => exact Int.le_of_eq h
  | cons x xs ih =>
    have hx := ih h.2.2
    have h1 := h.1
    have h2 := h.2.1
    omega

theorem Tiles.lt_of_mem {a b : Int} {xs : List (Int × Int)} (h : Tiles a b xs) {c : Int × Int}
    (hc : c ∈ xs) : c.1 < c.2 := by
  induction xs generalizing a with
  | nil => simp at hc
  | cons x xs ih =>
    rcases List.mem_cons.mp hc with rfl | hc
    · exact h.2.1
    · exact ih h.2.2 hc

/-- Of intervals in a row, one holds each instant between the ends. -/
theorem Tiles.countP {a b : Int} {xs : List (Int × Int)} (h : Tiles a b xs) (t : Int) :
    xs.countP (fun c => c.1 ≤ t ∧ t < c.2) = if a ≤ t ∧ t < b then 1 else 0 := by
  induction xs generalizing a with
  | nil =>
    have hab : a = b := h
    rw [List.countP_nil, if_neg (by omega)]
  | cons c xs ih =>
    obtain ⟨hstart, hlt, hrest⟩ := h
    have hle := hrest.le
    rw [List.countP_cons, ih hrest]
    simp only [decide_eq_true_eq]
    split <;> split <;> split <;> omega

namespace Request

/-- The length of all intervals but the last. -/
def step (r : Request) (count : Nat) : Int := r.duration / count

/-- The start and the end of each of the intervals. -/
def cuts (r : Request) (count : Nat) : List (Int × Int) :=
  (List.range count).map fun i =>
    ((r.interval (r.step count) count i).start, (r.interval (r.step count) count i).stop)

theorem step_pos {r : Request} {count : Nat} (h0 : 0 < count) (h : (count : Int) ≤ r.duration) :
    0 < r.step count := by
  have hone : 1 ≤ r.duration / count :=
    Int.le_ediv_of_mul_le (Int.natCast_pos.mpr h0) (by omega)
  unfold step
  omega

theorem mul_step_le {r : Request} {count : Nat} (h0 : 0 < count) :
    (count : Int) * r.step count ≤ r.duration :=
  Int.mul_ediv_self_le (by omega)

/-- The steps before an interval and its own stay within the range. -/
theorem succ_mul_step_le {r : Request} {count i : Nat} (h0 : 0 < count)
    (h : (count : Int) ≤ r.duration) (hi : i < count) :
    (i : Int) * r.step count + r.step count ≤ r.duration := by
  have hpos := step_pos h0 h
  calc (i : Int) * r.step count + r.step count = (i + 1 : Int) * r.step count := by
        rw [Int.add_mul, Int.one_mul]
    _ ≤ (count : Int) * r.step count :=
        Int.mul_le_mul_of_nonneg_right (by omega) (Int.le_of_lt hpos)
    _ ≤ r.duration := mul_step_le h0

theorem cuts_succ (r : Request) (step : Int) (count k : Nat) :
    (List.range (k + 1)).map (fun i => ((r.interval step count i).start,
      (r.interval step count i).stop)) =
    (List.range k).map (fun i => ((r.interval step count i).start,
      (r.interval step count i).stop)) ++
      [((r.interval step count k).start, (r.interval step count k).stop)] := by
  rw [List.range_succ, List.map_append]
  rfl

/-- The first `k` intervals, the last of all not among them, reach `k` steps far. -/
theorem tiles_cuts_take {r : Request} {count k : Nat} (h0 : 0 < count)
    (h : (count : Int) ≤ r.duration) (hk : k < count) :
    Tiles r.start (r.start + k * r.step count)
      ((List.range k).map fun i => ((r.interval (r.step count) count i).start,
        (r.interval (r.step count) count i).stop)) := by
  have hpos := step_pos h0 h
  induction k with
  | zero => simp [Tiles]
  | succ k ih =>
    rw [cuts_succ]
    refine (ih (by omega)).append ?_
    have hnot : k + 1 ≠ count := by omega
    have hsucc : ((k + 1 : Nat) : Int) * r.step count = k * r.step count + r.step count := by
      rw [Int.natCast_add, Int.add_mul, Int.natCast_one, Int.one_mul]
    simp only [interval, if_neg hnot, Tiles, true_and]
    exact ⟨by omega, by omega⟩

theorem tiles_cuts {r : Request} {count : Nat} (h0 : 0 < count)
    (h : (count : Int) ≤ r.duration) : Tiles r.start r.stop (r.cuts count) := by
  obtain ⟨k, rfl⟩ := Nat.exists_eq_add_one.mpr h0
  rw [cuts, cuts_succ]
  refine (tiles_cuts_take h0 h (Nat.lt_succ_self k)).append ?_
  have hlast := succ_mul_step_le h0 h (Nat.lt_succ_self k)
  have hpos := step_pos h0 h
  simp only [interval, if_pos, Tiles, true_and, and_true]
  unfold duration at hlast
  omega

/-- The request asks for the source at the instant. -/
def Asks (r : Request) (source : String) (t : Int) : Prop := source ∈ r.sources ∧ r.Covers t

instance (r : Request) (source : String) (t : Int) : Decidable (r.Asks source t) :=
  inferInstanceAs (Decidable (_ ∧ _))

/-- Every group of sources over every interval, group by group. -/
def product (groups : List (List String)) (cuts : List (Int × Int)) : List Request :=
  groups.flatMap fun group => cuts.map fun c => ⟨group, c.1, c.2⟩

theorem countP_asks_row (group : List String) (cuts : List (Int × Int)) (source : String)
    (t : Int) :
    (cuts.map fun c => (⟨group, c.1, c.2⟩ : Request)).countP (fun p => p.Asks source t) =
      if source ∈ group then cuts.countP fun c => c.1 ≤ t ∧ t < c.2 else 0 := by
  rw [List.countP_map]
  split
  · refine List.countP_congr fun c _ => ?_
    simp_all [Asks, Covers]
  · rw [List.countP_eq_zero]
    simp_all [Asks]

theorem countP_asks (groups : List (List String)) (cuts : List (Int × Int)) (source : String)
    (t : Int) :
    (product groups cuts).countP (fun p => p.Asks source t) =
      groups.countP (fun group => source ∈ group) * cuts.countP fun c => c.1 ≤ t ∧ t < c.2 := by
  induction groups with
  | nil => simp [product]
  | cons group groups ih =>
    rw [product, List.flatMap_cons, List.countP_append, countP_asks_row, ← product, ih,
      List.countP_cons, Nat.add_mul]
    by_cases hs : source ∈ group <;> simp [hs, Nat.add_comm]

/-- Groups that make up the sources, over intervals that tile the range. -/
structure Cover (r : Request) (groups : List (List String)) (cuts : List (Int × Int)) : Prop where
  flatten : groups.flatten = r.sources
  nonempty : ∀ group ∈ groups, group ≠ []
  tiles : Tiles r.start r.stop cuts

theorem Cover.countP {r : Request} {groups : List (List String)} {cuts : List (Int × Int)}
    (h : r.Cover groups cuts) (hr : r.sources.Nodup) (source : String) (t : Int) :
    (product groups cuts).countP (fun p => p.Asks source t) = if r.Asks source t then 1 else 0 := by
  rw [countP_asks, countP_mem_groups (by rwa [h.flatten]), h.tiles.countP, h.flatten]
  by_cases hs : source ∈ r.sources <;> by_cases ht : r.start ≤ t ∧ t < r.stop <;>
    simp [Asks, Covers, hs, ht]

theorem make_eq_ok_iff {sources : List String} {start stop : Int} {r : Request} :
    make sources start stop = .ok r ↔ r = ⟨sources, start, stop⟩ ∧ r.Valid := by
  have hflaw := flaw?_eq_none_iff (r := ⟨sources, start, stop⟩)
  simp only [make]
  split
  · rename_i flaw h
    rw [h] at hflaw
    constructor
    · intro hr
      cases hr
    · rintro ⟨rfl, hv⟩
      exact absurd (hflaw.mpr hv) (by simp)
  · rename_i h
    have hv := hflaw.mp h
    constructor
    · intro hr
      cases hr
      exact ⟨rfl, hv⟩
    · rintro ⟨rfl, -⟩
      rfl

theorem Cover.valid {r : Request} {groups : List (List String)} {cuts : List (Int × Int)}
    (h : r.Cover groups cuts) (hr : r.Valid) {p : Request} (hp : p ∈ product groups cuts) :
    p.Valid := by
  obtain ⟨group, hg, hp⟩ := List.mem_flatMap.mp hp
  obtain ⟨c, hc, rfl⟩ := List.mem_map.mp hp
  obtain ⟨-, -, hname, hnodup⟩ := hr
  have hsub : group.Sublist r.sources := by
    rw [← h.flatten]
    exact List.sublist_flatten_of_mem hg
  exact ⟨h.nonempty group hg, h.tiles.lt_of_mem hc, fun hmem => hname (hsub.subset hmem),
    hnodup.sublist hsub⟩

/-! ## Splitting both ways -/

/-- The groups that a request's sources are cut into. -/
def groupsFor (r : Request) (count : Nat) : List (List String) :=
  consecutive (max 1 (runsNeeded r.sources.length count)) r.sources

theorem byGroups_eq {r : Request} {count : Nat} (h : count ≠ 0) :
    r.byGroups count = .ok ((r.groupsFor count).map fun group => { r with sources := group }) := by
  rw [byGroups, if_neg h]
  rfl

theorem byIntervals_eq {r : Request} {count : Nat} (h0 : count ≠ 0)
    (h : (count : Int) ≤ r.duration) :
    r.byIntervals count = .ok ((r.cuts count).map fun c => ⟨r.sources, c.1, c.2⟩) := by
  rw [byIntervals, if_neg (by omega), cuts, List.map_map]
  rfl

theorem byIntervals_error {r : Request} {count : Nat} (h : r.duration < count) :
    r.byIntervals count = .error (.misuse (.tooManyIntervals r.duration count)) := by
  rw [byIntervals, if_pos (.inr h)]

theorem groupsFor_one {r : Request} (h : r.sources ≠ []) : r.groupsFor 1 = [r.sources] := by
  apply consecutive_of_length_le h
  simp only [runsNeeded, Nat.add_sub_cancel, Nat.div_one]
  omega

theorem groupsFor_ne_nil {r : Request} (h : r.sources ≠ []) (count : Nat) :
    r.groupsFor count ≠ [] := by
  intro hnil
  apply h
  rw [← flatten_consecutive (max 1 (runsNeeded r.sources.length count)) r.sources]
  rw [groupsFor] at hnil
  rw [hnil, List.flatten_nil]

theorem cuts_one (r : Request) : r.cuts 1 = [(r.start, r.stop)] := by
  simp [cuts, interval]

theorem byGrid_eq {r : Request} {groups intervals : Nat} (hg : groups ≠ 0) (hi : intervals ≠ 0)
    (h : (intervals : Int) ≤ r.duration) :
    r.byGrid groups intervals = .ok (product (r.groupsFor groups) (r.cuts intervals)) := by
  have hrow : ∀ part ∈ (r.groupsFor groups).map fun group => { r with sources := group },
      part.byIntervals intervals =
        .ok ((r.cuts intervals).map fun c => ⟨part.sources, c.1, c.2⟩) := by
    intro part hp
    obtain ⟨group, -, rfl⟩ := List.mem_map.mp hp
    exact byIntervals_eq hi h
  rw [byGrid, byGroups_eq hg]
  show (do
    let parts ← ((r.groupsFor groups).map _).mapM fun part : Request => part.byIntervals intervals
    pure parts.flatten) = _
  rw [mapM_eq_ok hrow, List.map_map]
  show Except.ok ((r.groupsFor groups).map _).flatten = _
  rw [product, List.flatMap]
  rfl

theorem byGrid_error {r : Request} {groups intervals : Nat} (hr : r.sources ≠ [])
    (hg : groups ≠ 0) (h : r.duration < intervals) :
    r.byGrid groups intervals =
      .error (.misuse (.tooManyIntervals r.duration intervals)) := by
  rw [byGrid, byGroups_eq hg]
  obtain ⟨group, rest, hgroups⟩ := List.exists_cons_of_ne_nil (groupsFor_ne_nil hr groups)
  rw [hgroups]
  show (do
    let parts ← ((group :: rest).map _).mapM fun part : Request => part.byIntervals intervals
    pure parts.flatten) = _
  rw [List.map_cons, List.mapM_cons, byIntervals_error (by exact h)]
  rfl

theorem cover_grid {r : Request} (groups : Nat) {intervals : Nat} (hi : 0 < intervals)
    (h : (intervals : Int) ≤ r.duration) :
    r.Cover (r.groupsFor groups) (r.cuts intervals) where
  flatten := flatten_consecutive ..
  nonempty _ hg := ne_nil_of_mem_consecutive hg
  tiles := tiles_cuts hi h

end Request

/-! ## Splits -/

/-- Why a split cannot be carried out over a range of this length: a count is zero, an axis that
the strategy leaves whole has another count than one, or the range has too few instants for the
intervals. -/
def Split.Refused (s : Split) (duration : Int) : Prop :=
  s.groups = 0 ∨ s.intervals = 0 ∨
    (s.strategy = .whole ∧ (s.groups ≠ 1 ∨ s.intervals ≠ 1)) ∨
    (s.strategy = .bySource ∧ s.intervals ≠ 1) ∨
    (s.strategy = .byTime ∧ s.groups ≠ 1) ∨
    ((s.strategy = .byTime ∨ s.strategy = .grid) ∧ duration < s.intervals)

instance (s : Split) (duration : Int) : Decidable (s.Refused duration) :=
  inferInstanceAs (Decidable (_ ∨ _))

/-- A grid with positive counts, or intervals that the duration has room for, but the memory for all
the parts that the counts can give cannot be reserved. -/
def Split.Oversized (s : Split) (duration : Int) : Prop :=
  s.Positive ∧ mostBytes < s.groups * s.intervals * Request.recordBytes ∧
    (s.strategy = .grid ∨
      s.strategy = .byTime ∧ s.groups = 1 ∧ (s.intervals : Int) ≤ duration)

instance (s : Split) (duration : Int) : Decidable (s.Oversized duration) :=
  inferInstanceAs (Decidable (_ ∧ _ ∧ _))

namespace Request

/-- A split that is in order is a grid, whatever its strategy. -/
theorem divide_eq_byGrid {r : Request} (hr : r.Valid) {s : Split} (hp : s.Positive)
    (hc : s.Consistent) : r.divide s = r.byGrid s.groups s.intervals := by
  have hd : ((1 : Nat) : Int) ≤ r.duration := by
    have := hr.2.1
    unfold duration
    omega
  have hcheck : s.check = .ok () := by
    rw [Split.check, if_neg (not_not_intro hp), if_neg (not_not_intro hc)]
  obtain ⟨strategy, groups, intervals⟩ := s
  obtain ⟨hg, hi⟩ := hp
  rw [divide, hcheck]
  cases strategy with
  | whole =>
    obtain ⟨rfl, rfl⟩ : groups = 1 ∧ intervals = 1 := hc
    rw [byGrid_eq hg hi hd, groupsFor_one hr.1, cuts_one]
    rfl
  | bySource =>
    obtain rfl : intervals = 1 := hc
    rw [byGrid_eq hg hi hd, cuts_one]
    show r.byGroups groups = _
    rw [byGroups_eq hg, product, List.map_eq_flatMap]
    rfl
  | byTime =>
    obtain rfl : groups = 1 := hc
    show r.byIntervals intervals = r.byGrid 1 intervals
    by_cases h : r.duration < intervals
    · rw [byIntervals_error h, byGrid_error hr.1 hg h]
    · have hle : (intervals : Int) ≤ r.duration := Int.not_lt.mp h
      rw [byIntervals_eq hi hle, byGrid_eq hg hi hle, groupsFor_one hr.1, product]
      simp
  | grid => rfl

theorem divide_ok {r : Request} (hr : r.Valid) {s : Split} (h : ¬ s.Refused r.duration) :
    0 < s.intervals ∧ (s.intervals : Int) ≤ r.duration ∧
      r.divide s = .ok (product (r.groupsFor s.groups) (r.cuts s.intervals)) := by
  have hd := hr.2.1
  have hsplit : s.Positive ∧ s.Consistent ∧ (s.intervals : Int) ≤ r.duration := by
    obtain ⟨strategy, groups, intervals⟩ := s
    unfold Split.Refused at h
    unfold Split.Positive Split.Consistent
    unfold duration at *
    cases strategy <;> simp at h ⊢ <;> omega
  obtain ⟨hp, hc, hle⟩ := hsplit
  refine ⟨Nat.pos_of_ne_zero hp.2, hle, ?_⟩
  rw [divide_eq_byGrid hr hp hc, byGrid_eq hp.1 hp.2 hle]

theorem tryIntervals_eq (r : Request) (count : Nat) :
    r.tryIntervals count =
      if (0 < count ∧ (count : Int) ≤ r.duration) ∧ mostBytes < count * recordBytes then .brokenOff
      else .ended (r.byIntervals count) := by
  unfold tryIntervals
  by_cases h : count = 0 ∨ r.duration < count
  · rw [if_pos h, if_neg (by omega)]
  · rw [if_neg h, Attempt.reserving]
    by_cases hroom : Reservable count recordBytes
    · have hle : count * recordBytes ≤ mostBytes := hroom
      rw [if_pos hroom, if_neg (by omega)]
    · have hlt : ¬ count * recordBytes ≤ mostBytes := hroom
      rw [if_neg hroom, if_pos (by omega)]

theorem tryGrid_eq (r : Request) (groups intervals : Nat) :
    r.tryGrid groups intervals =
      if mostBytes < groups * intervals * recordBytes then .brokenOff
      else .ended (r.byGrid groups intervals) := by
  have hroom : Reservable (min mostCount (groups * intervals)) recordBytes ↔
      ¬ mostBytes < groups * intervals * recordBytes := by
    unfold Reservable mostCount mostBytes recordBytes
    omega
  rw [tryGrid, Attempt.reserving]
  simp only [hroom, ite_not]

/-- A division breaks off exactly for an oversized split, and otherwise ends as without anything
reserved. -/
theorem tryDivide_eq (r : Request) (s : Split) :
    r.tryDivide s = if s.Oversized r.duration then .brokenOff else .ended (r.divide s) := by
  by_cases hp : s.Positive
  case neg => simp [tryDivide, Split.check, Split.Oversized, hp]
  by_cases hc : s.Consistent
  case neg =>
    -- A grid is consistent whatever its counts.
    have hoversized : ¬ s.Oversized r.duration := by
      obtain ⟨strategy, groups, intervals⟩ := s
      cases strategy <;> simp_all [Split.Oversized, Split.Consistent]
    simp [tryDivide, Split.check, hp, hc, hoversized]
  have hcheck : s.check = .ok () := by
    rw [Split.check, if_neg (not_not_intro hp), if_neg (not_not_intro hc)]
  obtain ⟨strategy, groups, intervals⟩ := s
  have hpos : 0 < intervals := Nat.pos_of_ne_zero hp.2
  unfold tryDivide Split.Oversized divide
  rw [hcheck]
  cases strategy with
  | whole | bySource => simp
  | byTime =>
    obtain rfl : groups = 1 := hc
    simp only [tryIntervals_eq, hp, hpos, true_and, Nat.one_mul, and_comm, reduceCtorEq, false_or]
    rfl
  | grid =>
    simp only [tryGrid_eq, hp, true_and, true_or, and_true]
    rfl

theorem tryDivide_eq_brokenOff_iff {r : Request} {s : Split} :
    r.tryDivide s = .brokenOff ↔ s.Oversized r.duration := by
  rw [tryDivide_eq]
  split <;> simp_all

theorem tryDivide_of_not_oversized {r : Request} {s : Split} (h : ¬ s.Oversized r.duration) :
    r.tryDivide s = .ended (r.divide s) := by
  rw [tryDivide_eq, if_neg h]

example : divide ⟨["a", "b", "c"], 0, 10⟩ ⟨.grid, 2, 2⟩ =
    .ok [⟨["a", "b"], 0, 5⟩, ⟨["a", "b"], 5, 10⟩, ⟨["c"], 0, 5⟩, ⟨["c"], 5, 10⟩] := by cbv

end Request

end SeriesTable
