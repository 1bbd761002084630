import SeriesTable.Proofs.Collector.Batches
import SeriesTable.Proofs.Grouping.Ledger

/-
  The batches that a collector hands over, one after another. A poll hands over one batch or none
  (`handover`), and what it does to the collector is said once, in `step_cases`. The batches cut up
  what was polled, in its order and to size; up to the first batch with a fault the grouping takes
  them in, and after that batch nothing reaches it (`Account`).

  Main statement: `batches_collected`, for every sequence of polls that ends.
-/

namespace SeriesTable

theorem Grouping.taken_sublist (g : Grouping) (fs : List Fragment) :
    (g.addEach fs).taken.Sublist fs := by
  induction fs generalizing g with
  | nil => exact .slnil
  | cons f fs ih =>
    cases ha : g.add f with
    | ok h =>
      rw [addEach_of_ok ha]
      exact (ih h).cons_cons f
    | error fault =>
      rw [addEach_of_error ha]
      exact (ih g).cons f

theorem Grouping.accepted_sublist (g : Grouping) (d : Delivery) :
    (g.accepted d).Sublist d.fragments := by
  unfold accepted
  split
  · exact g.taken_sublist d.fragments
  · exact List.nil_sublist _

namespace Collector

open Grouping (Compatible Keeps)

variable {o : Grouping.Options} {c : Collector} {polled : List Fragment}
  {batches : List (List Fragment)}

/-- The batches handed over at a poll: one, or none after a fault or if nothing would be in it. -/
def handover (c : Collector) (p : Handoff.Poll) : List (List Fragment) :=
  if c.fault.isSome ∨ (c.divide p).2 = [] then [] else [(c.divide p).2]

/-- The batches handed over at polls one after another. -/
def handovers (c : Collector) : List Handoff.Poll → List (List Fragment)
  | [] => []
  | p :: ps => c.handover p ++ (c.step p).handovers ps

/-- A poll changes nothing after a fault; without one, what it finds waits, or a batch is handed
over. -/
theorem step_cases (c : Collector) (p : Handoff.Poll) : ∃ stalls,
    (c.fault.isSome ∧ c.handover p = [] ∧ c.step p = { c with stalls }) ∨
    (c.fault = none ∧ c.handover p = [] ∧ (c.divide p).1 = c.pending ++ p.found ∧
      c.step p = { c with pending := (c.divide p).1, stalls }) ∨
    (c.fault = none ∧ ∃ batch, (c.divide p).2 = batch ∧ batch ≠ [] ∧ c.handover p = [batch] ∧
      c.step p = hand { c with pending := (c.divide p).1, stalls } batch) := by
  by_cases hfault : c.fault.isSome
  · obtain ⟨stalls, hstep⟩ := step_of_broken hfault p
    exact ⟨stalls, .inl ⟨hfault, by simp [handover, hfault], hstep⟩⟩
  · obtain ⟨stalls, hstep⟩ := step_of_unbroken (by simpa using hfault) p
    refine ⟨stalls, .inr ?_⟩
    by_cases hempty : (c.divide p).2 = []
    · have hdivide := c.divide_append p
      rw [hempty] at hdivide
      refine .inl ⟨by simpa using hfault, by simp [handover, hempty], hdivide, ?_⟩
      rw [hstep, hempty]
      rfl
    · exact .inr ⟨by simpa using hfault, _, rfl, hempty, by simp [handover, hfault, hempty], hstep⟩

/-- The grouping is in its slot, and tidy, unless there is a fault. -/
def Ready (c : Collector) : Prop :=
  c.fault = none → ∃ g : Grouping, c.slot = some g ∧ g.Tidy

/-- With steady threads the batch handed over goes into the grouping. -/
theorem step_cases_of_steady (hthreads : c.threads = .steady) (hready : c.Ready)
    (p : Handoff.Poll) : ∃ stalls,
    (c.fault.isSome ∧ c.handover p = [] ∧ c.step p = { c with stalls }) ∨
    (c.fault = none ∧ c.handover p = [] ∧ (c.divide p).1 = c.pending ++ p.found ∧
      c.step p = { c with pending := (c.divide p).1, stalls }) ∨
    (c.fault = none ∧ ∃ g batch, c.slot = some g ∧ (c.divide p).2 = batch ∧ batch ≠ [] ∧
      c.handover p = [batch] ∧
      c.step p = { c with
        slot := some (g.addBatch batch).1
        pending := (c.divide p).1
        fault := (g.addBatch batch).2
        batches := c.batches + 1
        rejected := c.rejected + (if (g.addBatch batch).2.isSome then
          batch.length - ((g.addBatch batch).1.fragments - g.fragments) else 0)
        stalls }) := by
  obtain ⟨stalls, hbroken | hwaits | ⟨hfault, batch, hdivide, hbatch, hone, hstep⟩⟩ :=
    c.step_cases p
  · exact ⟨stalls, .inl hbroken⟩
  · exact ⟨stalls, .inr (.inl hwaits)⟩
  · obtain ⟨g, hslot, htidy⟩ := hready hfault
    have hhand := hand_of_steady (c := { c with pending := (c.divide p).1, stalls }) hthreads hslot
      htidy hbatch
    rw [hhand, hfault, Option.none_or] at hstep
    exact ⟨stalls, .inr (.inr ⟨hfault, g, batch, hslot, hdivide, hbatch, hone, hstep⟩)⟩

/-- Batches are not larger than the batch size, and what waits is smaller. -/
theorem length_divide (h : c.pending.length < c.batchSize) (p : Handoff.Poll) :
    (c.divide p).1.length < c.batchSize ∧ (c.divide p).2.length ≤ c.batchSize := by
  cases p with
  | fragment f =>
    rw [divide]
    split <;> simp only [List.length_append, List.length_cons, List.length_nil] <;> omega
  | idle | drained =>
    simp only [divide, List.length_nil]
    omega

/-! ## Accounts -/

/-- The threads are steady, every batch has something in it and is not too large, each was counted,
and there is room for one more fragment. -/
structure Cut (size : Nat) (c : Collector) (batches : List (List Fragment)) : Prop where
  threads : c.threads = .steady
  batchSize : c.batchSize = size
  nonempty : ∀ b ∈ batches, b ≠ []
  fits : ∀ b ∈ batches, b.length ≤ size
  count : c.batches = batches.length
  room : c.fault = none → c.pending.length < size

theorem cut_make (o : Grouping.Options) {size : Nat} (h : 0 < size) :
    Cut size (make .steady o size) [] :=
  ⟨rfl, rfl, by simp, by simp, rfl, fun _ => h⟩

theorem Cut.step {size : Nat} (h : Cut size c batches) (hready : c.Ready) (p : Handoff.Poll) :
    Cut size (c.step p) (batches ++ c.handover p) := by
  have hdivided (hfault : c.fault = none) := length_divide (h.batchSize ▸ h.room hfault) p
  rw [h.batchSize] at hdivided
  obtain ⟨stalls, ⟨-, hnone, hstep⟩ | ⟨hfault, hnone, -, hstep⟩ |
    ⟨hfault, g, batch, -, hdivide, hbatch, hone, hstep⟩⟩ := step_cases_of_steady h.threads hready p
  · rw [hnone, List.append_nil, hstep]
    exact ⟨h.threads, h.batchSize, h.nonempty, h.fits, h.count, h.room⟩
  · rw [hnone, List.append_nil, hstep]
    exact ⟨h.threads, h.batchSize, h.nonempty, h.fits, h.count, fun _ => (hdivided hfault).1⟩
  · obtain ⟨hpending, hlength⟩ := hdivided hfault
    rw [hdivide] at hlength
    rw [hone, hstep]
    refine ⟨h.threads, h.batchSize, ?_, ?_, ?_, fun _ => hpending⟩
    · exact List.forall_mem_append.mpr ⟨h.nonempty, by simpa using hbatch⟩
    · exact List.forall_mem_append.mpr ⟨h.fits, by simpa using hlength⟩
    · simp [h.count]

/-- Where a collector is with the batches it handed over. -/
inductive Account (o : Grouping.Options) (c : Collector) (polled : List Fragment)
    (batches : List (List Fragment)) : Prop where
  /-- The grouping took all of them in, and the rest waits. -/
  | going (g : Grouping) (hslot : c.slot = some g) (hfault : c.fault = none)
      (hrejected : c.rejected = 0)
      (haccept : (Grouping.empty o).acceptAll (batches.map .batch) = .ok g)
      (hkeeps : Keeps o g batches.flatten)
      (hpolled : polled = batches.flatten ++ c.pending)
  /-- The last one has a fault, which is kept, and nothing went into the grouping after it. -/
  | stopped (before : List (List Fragment)) (batch rest : List Fragment) (g h : Grouping)
      (fault : Fault) (hslot : c.slot = some h) (hbatches : batches = before ++ [batch])
      (haccept : (Grouping.empty o).acceptAll (before.map .batch) = .ok g)
      (hkeeps : Keeps o g before.flatten)
      (hbatch : g.addBatch batch = (h, some fault))
      (hfault : c.fault = some fault)
      (hrejected : c.rejected + (g.accepted (.batch batch)).length = batch.length)
      (hpolled : polled = batches.flatten ++ rest)

theorem account_make (o : Grouping.Options) (size : Nat) :
    Account o (make .steady o size) [] [] :=
  .going _ rfl rfl rfl rfl (Grouping.keeps_empty o) rfl

theorem Account.ready (h : Account o c polled batches) : c.Ready := by
  intro hnone
  cases h with
  | going g hslot _ _ _ hkeeps => exact ⟨g, hslot, hkeeps.holds.tidy⟩
  | stopped _ _ _ _ _ fault _ _ _ _ _ hfault =>
    rw [hfault] at hnone
    cases hnone

/-- A batch that the grouping refuses leaves in it what it accepts of the batch. -/
theorem length_accepted {g h : Grouping} {fs batch : List Fragment} {fault : Option Fault}
    (hkeeps : Keeps o g fs) (hbatch : g.addBatch batch = (h, fault)) :
    batch.length - (h.fragments - g.fragments) + (g.accepted (.batch batch)).length =
      batch.length := by
  have hcount := (hkeeps.holds.after (.batch batch)).2.1
  have hsub := (g.accepted_sublist (.batch batch)).length_le
  have hafter : g.after (.batch batch) = h := congrArg Prod.fst hbatch
  rw [hafter] at hcount
  rw [Grouping.Delivery.fragments_batch] at hsub
  omega

theorem acceptAll_snoc {g h : Grouping} {batch : List Fragment}
    (haccept : g.acceptAll (batches.map .batch) = .ok h) (hnone : (h.addBatch batch).2 = none) :
    g.acceptAll ((batches ++ [batch]).map .batch) = .ok (h.addBatch batch).1 := by
  unfold Grouping.acceptAll at haccept ⊢
  rw [List.map_append, List.foldlM_append, haccept]
  show Grouping.acceptAll h [.batch batch] = _
  simp [Grouping.acceptAll, Grouping.accept, hnone]

theorem Account.step (h : Account o c polled batches) (hthreads : c.threads = .steady)
    (p : Handoff.Poll) : Account o (c.step p) (polled ++ p.found) (batches ++ c.handover p) := by
  obtain ⟨stalls, hcases⟩ := step_cases_of_steady hthreads h.ready p
  cases h with
  | stopped before batch rest g after fault hslot hbatches haccept hkeeps hbatch hfault hrejected
      hpolled =>
    obtain ⟨-, hnone, hstep⟩ | ⟨hopen, -⟩ | ⟨hopen, -⟩ := hcases
    case inr.inl | inr.inr =>
      rw [hfault] at hopen
      cases hopen
    rw [hnone, List.append_nil, hstep, hpolled, List.append_assoc]
    exact .stopped before batch _ g after fault hslot hbatches haccept hkeeps hbatch hfault
      hrejected rfl
  | going g hslot hfault hrejected haccept hkeeps hpolled =>
    have hdivide := c.divide_append p
    obtain ⟨hbroken, -⟩ | ⟨-, hnone, hpending, hstep⟩ |
      ⟨-, g', batch, hslot', hb, -, hone, hstep⟩ := hcases
    · simp [hfault] at hbroken
    · rw [hnone, List.append_nil, hstep, hpolled, List.append_assoc, ← hpending]
      exact .going g hslot hfault hrejected haccept hkeeps rfl
    · obtain rfl := Option.some.inj (hslot.symm.trans hslot')
      have hall : polled ++ p.found = (batches ++ [batch]).flatten ++ (c.divide p).1 := by
        rw [hpolled, List.append_assoc, ← hdivide, hb, List.flatten_append, List.append_assoc]
        simp
      have hspec := hkeeps.addBatch batch
      rw [hone, hall, hstep]
      cases hresult : (g.addBatch batch).2 with
      | none =>
        rw [hresult] at hspec
        split at hspec
        · refine .going _ rfl rfl ?_ (acceptAll_snoc haccept hresult) ?_ rfl
          · simp [hrejected]
          · simpa using hspec.2
        · obtain ⟨_, hsome, -⟩ := hspec
          cases hsome
      | some fault =>
        have hbatch : g.addBatch batch = ((g.addBatch batch).1, some fault) := Prod.ext rfl hresult
        refine .stopped batches batch _ g _ fault rfl rfl haccept hkeeps hbatch rfl ?_ rfl
        simpa [hrejected] using length_accepted hkeeps hbatch

theorem run_account {size : Nat} (hcut : Cut size c batches) (h : Account o c polled batches)
    (ps : List Handoff.Poll) :
    Cut size (ps.foldl step c) (batches ++ c.handovers ps) ∧
      Account o (ps.foldl step c) (polled ++ ps.flatMap Handoff.Poll.found)
        (batches ++ c.handovers ps) := by
  induction ps generalizing c polled batches with
  | nil =>
    rw [handovers, List.flatMap_nil, List.append_nil, List.append_nil]
    exact ⟨hcut, h⟩
  | cons p ps ih =>
    rw [handovers, List.flatMap_cons, ← List.append_assoc, ← List.append_assoc]
    exact ih (hcut.step h.ready p) (h.step hcut.threads p)

/-- With nothing waiting, the account is complete: all was taken in if it is compatible, and
otherwise some batch stopped the collector. -/
theorem Account.complete (h : Account o c polled batches)
    (hend : c.fault = none → c.pending = []) :
    if Compatible polled then ∃ g,
      batches.flatten = polled ∧
      (Grouping.empty o).acceptAll (batches.map .batch) = .ok g ∧
      c.result = .ok g ∧ c.rejected = 0 ∧
      polled.foldlM Grouping.add (Grouping.empty o) = .ok { g with parallelBatches := 0 }
    else ∃ before batch rest g h fault taken,
      batches = before ++ [batch] ∧
      polled = batches.flatten ++ rest ∧
      (Grouping.empty o).acceptAll (before.map .batch) = .ok g ∧
      g.addBatch batch = (h, some fault) ∧
      c.slot = some h ∧ c.result = .error fault ∧
      taken.Sublist batch ∧
      h.Holds (before.flatten ++ taken) ∧
      c.rejected + taken.length = batch.length := by
  cases h with
  | going g hslot hfault hrejected haccept hkeeps hpolled =>
    rw [hend hfault, List.append_nil] at hpolled
    subst hpolled
    rw [if_pos hkeeps.holds.compatible]
    exact ⟨g, rfl, haccept, by rw [result, hfault, hslot], hrejected,
      hkeeps.foldlM_add (.refl _)⟩
  | stopped before batch rest g after fault hslot hbatches haccept hkeeps hbatch hfault hrejected
      hpolled =>
    have hnot : ¬ Compatible polled := by
      intro hcompatible
      rw [hpolled, hbatches, List.flatten_append, List.flatten_singleton] at hcompatible
      have hspec := hkeeps.addBatch batch
      rw [if_pos hcompatible.of_append_left, hbatch] at hspec
      cases hspec.1
    have hafter : g.after (.batch batch) = after := congrArg Prod.fst hbatch
    have hholds := (hkeeps.holds.after (.batch batch)).1
    rw [hafter] at hholds
    rw [if_neg hnot]
    exact ⟨before, batch, rest, g, after, fault, g.accepted (.batch batch), hbatches, hpolled,
      haccept, hbatch, hslot, by rw [result, hfault], g.accepted_sublist _, hholds, hrejected⟩

/-! ## Whole runs -/

/-- A collector breaks off before its first poll exactly if there is no room for a batch. -/
theorem collect_eq_brokenOff_iff {threads : Threads} {size : Nat} {polls : List Handoff.Poll} :
    collect threads o size polls = .brokenOff ↔ ¬ Reservable size Fragment.recordBytes := by
  rw [← Attempt.reserving_eq_brokenOff_iff]
  unfold collect start
  cases Attempt.reserving size Fragment.recordBytes (make threads o size) <;> simp [Attempt.map]

theorem collect_of_reservable {threads : Threads} {size : Nat}
    (h : Reservable size Fragment.recordBytes) (polls : List Handoff.Poll) :
    collect threads o size polls = .ended (polls.foldl step (make threads o size)) := by
  rw [collect, start_of_reservable h]
  rfl

/-- Let there be room for a batch and threads for those that are distributed. A collector hands over
what is polled in its order, in batches of the batch size at most, until it has polled all or a
batch has a fault. It has a grouping exactly if the fragments polled are compatible, the one that
they give one by one. Otherwise it has the fault of the last batch, only what that batch left in the
grouping, and has rejected the rest of it. -/
theorem batches_collected {threads : Threads} (hpool : ∀ n, threads.noPool n = none)
    (htasks : ∀ n, threads.lost n = none) (o : Grouping.Options) {size : Nat} (hsize : 0 < size)
    (hroom : Reservable size Fragment.recordBytes) (ps : List Handoff.Poll) :
    let polls := ps ++ [Handoff.Poll.drained]
    let polled := ps.flatMap Handoff.Poll.found
    let batches := (make threads o size).handovers polls
    (∀ b ∈ batches, b ≠ [] ∧ b.length ≤ size) ∧
    ∃ c, collect threads o size polls = .ended c ∧ c.batches = batches.length ∧
    if Compatible polled then ∃ g,
      batches.flatten = polled ∧
      (Grouping.empty o).acceptAll (batches.map .batch) = .ok g ∧
      c.result = .ok g ∧ c.rejected = 0 ∧
      polled.foldlM Grouping.add (Grouping.empty o) = .ok { g with parallelBatches := 0 }
    else ∃ before batch rest g h fault taken,
      batches = before ++ [batch] ∧
      polled = batches.flatten ++ rest ∧
      (Grouping.empty o).acceptAll (before.map .batch) = .ok g ∧
      g.addBatch batch = (h, some fault) ∧
      c.slot = some h ∧ c.result = .error fault ∧
      taken.Sublist batch ∧
      h.Holds (before.flatten ++ taken) ∧
      c.rejected + taken.length = batch.length := by
  intro polls polled batches
  obtain rfl := Threads.eq_steady hpool htasks
  obtain ⟨hcut, haccount⟩ := run_account (cut_make o hsize) (account_make o size) polls
  have hfound : [] ++ polls.flatMap Handoff.Poll.found = polled := by
    rw [List.nil_append, List.flatMap_append]
    exact List.append_nil _
  rw [hfound] at haccount
  have hend : (polls.foldl step (make .steady o size)).fault = none →
      (polls.foldl step (make .steady o size)).pending = [] := by
    rw [List.foldl_append]
    exact pending_step_drained
  exact ⟨fun b hb => ⟨hcut.nonempty b hb, hcut.fits b hb⟩, _, collect_of_reservable hroom polls,
    hcut.count, haccount.complete hend⟩

/-- Three sources; the first one comes twice. -/
def repeated : List Handoff.Poll :=
  [.fragment ⟨"a", .int, [.int 1], .list [50], 4⟩, .idle,
    .fragment ⟨"b", .bool, [.bool true], .list [0], 1⟩,
    .fragment ⟨"a", .int, [.int 2], .list [50], 4⟩,
    .fragment ⟨"c", .int, [.null], .list [0], 4⟩]

/-- The second batch has the repeated source, of which its other fragment is taken in; the third
source reaches no batch. -/
theorem batches_collected_repeated :
    let polls := repeated ++ [Handoff.Poll.drained]
    let batches := (make .steady {} 2).handovers polls
    batches.map (List.map Fragment.source) = [["a"], ["b", "a"]] ∧
    ∃ c, collect .steady {} 2 polls = .ended c ∧ c.batches = 2 ∧
    ∃ before batch rest g h fault taken,
      batches = before ++ [batch] ∧
      repeated.flatMap Handoff.Poll.found = batches.flatten ++ rest ∧
      (Grouping.empty {}).acceptAll (before.map .batch) = .ok g ∧
      g.addBatch batch = (h, some fault) ∧
      c.slot = some h ∧ c.result = .error fault ∧
      taken.Sublist batch ∧
      h.Holds (before.flatten ++ taken) ∧
      c.rejected + taken.length = batch.length := by
  obtain ⟨-, c, hc, hcount, hrest⟩ := @batches_collected .steady (fun _ => rfl) (fun _ => rfl) {} 2
    (by decide) (by decide) repeated
  rw [if_neg (by decide)] at hrest
  exact ⟨by decide, c, hc, hcount.trans (by decide), hrest⟩

/-- With a batch size that counts to the end of a word there is no room for a batch, and no
grouping for one fragment that could be taken in. -/
theorem collect_mostCount :
    let polls : List Handoff.Poll := [.fragment ⟨"a", .int, [.int 1], .list [50], 4⟩, .drained]
    0 < mostCount ∧ Compatible (polls.flatMap Handoff.Poll.found) ∧
      collect .steady {} mostCount polls = .brokenOff := by
  refine ⟨by decide, by decide, ?_⟩
  rw [collect_eq_brokenOff_iff]
  decide

/-- Polls that find nothing only move the cut. -/
example : ((make .steady {} 3).handovers (repeated.take 3 ++ [.drained])).map
    (List.map Fragment.source) = [["a"], ["b"]] := by decide

end Collector

end SeriesTable
