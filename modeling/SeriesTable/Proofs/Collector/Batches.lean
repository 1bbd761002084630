import SeriesTable.Collector
import SeriesTable.Proofs.Grouping.BatchInPlace
import SeriesTable.Proofs.Grouping.Keeping

/-
  A collector cuts what it polls into batches, which ones depends on its batch size and on when the
  polls find nothing. The cut does not matter: what was handed over and what still waits make up all
  that was polled (`divide_append`), and as soon as a batch has a fault, the fault names a fragment
  that was polled and cannot be taken in. So after the last poll the collector has a grouping that
  keeps all that was polled, or such a fault (`Gathered.result`).

  Threads may fail a batch. Whatever they do, a collector without a fault has its grouping
  (`holds_foldl_step`), and a run fails only with the fault of a batch
  (`result_foldl_step_eq_error_iff`). With steady threads its batches are plain ones
  (`hand_of_steady`), and as long as it has no fault it is as with steady threads
  (`step_steadied`).
-/

namespace SeriesTable

open Grouping (Compatible Keeps Refusal)

theorem Threads.eq_steady {threads : Threads} (hpool : ∀ n, threads.noPool n = none)
    (htasks : ∀ n, threads.lost n = none) : threads = .steady := by
  obtain ⟨noPool, lost⟩ := threads
  obtain rfl : noPool = fun _ => none := funext hpool
  obtain rfl : lost = fun _ => none := funext htasks
  rfl

/-- The fragment that a poll finds. -/
def Handoff.Poll.found : Handoff.Poll → List Fragment
  | fragment f => [f]
  | idle | drained => []

namespace Collector

/-- All that was polled is kept in the grouping or waits for the next batch; or there is a fault,
and it refuses a fragment that was polled. -/
inductive Gathered (o : Grouping.Options) (c : Collector) (polled : List Fragment) : Prop where
  | held (g : Grouping) (handed : List Fragment) (hthreads : c.threads = .steady)
      (hslot : c.slot = some g) (hfault : c.fault = none) (hkeeps : Keeps o g handed)
      (hpolled : polled = handed ++ c.pending)
  | broken (fault : Fault) (hfault : c.fault = some fault) (hrefusal : Refusal polled fault)

variable {o : Grouping.Options}

theorem start_of_reservable {threads : Threads} {size : Nat}
    (h : Reservable size Fragment.recordBytes) :
    start threads o size = .ended (make threads o size) :=
  Attempt.reserving_eq_ended_iff.mpr ⟨h, rfl⟩

theorem gathered_make (o : Grouping.Options) (batchSize : Nat) :
    Gathered o (make .steady o batchSize) [] :=
  .held _ [] rfl rfl rfl (Grouping.keeps_empty o) rfl

/-- What goes into a batch and what waits are what waited and what was found. -/
theorem divide_append (c : Collector) (p : Handoff.Poll) :
    (c.divide p).2 ++ (c.divide p).1 = c.pending ++ p.found := by
  cases p with
  | fragment f =>
    rw [divide]
    split
    · rfl
    · exact List.append_nil _
  | idle => rfl
  | drained => rfl

theorem pending_hand (c : Collector) (batch : List Fragment) :
    (c.hand batch).pending = c.pending := by
  unfold hand
  split
  · rfl
  · split
    · rfl
    · split
      · rfl
      · unfold settle
        split <;> rfl

/-- With steady threads a batch is put into the grouping as a plain one. -/
theorem hand_of_steady {c : Collector} {g : Grouping} (hthreads : c.threads = .steady)
    (hslot : c.slot = some g) (hg : g.Tidy) {batch : List Fragment} (hn : batch ≠ []) :
    c.hand batch = { c with
      slot := some (g.addBatch batch).1
      fault := c.fault.or (g.addBatch batch).2
      batches := c.batches + 1
      rejected := c.rejected + (if (g.addBatch batch).2.isSome then
        batch.length - ((g.addBatch batch).1.fragments - g.fragments) else 0) } := by
  have hsteady : (if Grouping.distributes g.options batch.length then c.threads.lost c.batches
      else none) = none := by
    rw [hthreads]
    exact ite_self _
  have hpool : c.threads.noPool c.batches = none := by rw [hthreads]; rfl
  unfold hand
  rw [if_neg (by simpa using hn), hslot]
  simp only
  rw [hsteady, hpool, Grouping.run_insertBatch hg]
  obtain ⟨h, fault⟩ := g.addBatch batch
  cases fault with
  | none => simp [Grouping.landed, settle]
  | some fault => simp [Grouping.landed, settle]

theorem hand_spec {c : Collector} {g : Grouping} {handed : List Fragment}
    (hthreads : c.threads = .steady) (hslot : c.slot = some g) (hfault : c.fault = none)
    (hkeeps : Keeps o g handed) (batch : List Fragment) :
    (c.hand batch).threads = .steady ∧
    if Compatible (handed ++ batch) then
      ∃ h, (c.hand batch).slot = some h ∧ (c.hand batch).fault = none ∧ Keeps o h (handed ++ batch)
    else ∃ fault, (c.hand batch).fault = some fault ∧ Refusal (handed ++ batch) fault := by
  have hbatch := hkeeps.addBatch batch
  by_cases hn : batch = []
  · subst hn
    rw [List.append_nil, if_pos hkeeps.holds.compatible]
    exact ⟨hthreads, g, hslot, hfault, hkeeps⟩
  · rw [hand_of_steady hthreads hslot hkeeps.holds.tidy hn]
    refine ⟨hthreads, ?_⟩
    by_cases hc : Compatible (handed ++ batch)
    · rw [if_pos hc] at hbatch ⊢
      exact ⟨_, rfl, by simp [hfault, hbatch.1], hbatch.2⟩
    · rw [if_neg hc] at hbatch ⊢
      simpa [hfault] using hbatch

theorem step_of_broken {c : Collector} (h : c.fault.isSome) (p : Handoff.Poll) : ∃ stalls,
    c.step p = { c with stalls } := by
  cases p with
  | fragment f | drained => exact ⟨c.stalls, by simp [step, h]⟩
  | idle => exact ⟨c.stalls + 1, by simp [step, h]⟩

/-- Without a fault, a poll hands over one batch, and the rest waits. -/
theorem step_of_unbroken {c : Collector} (h : c.fault = none) (p : Handoff.Poll) : ∃ stalls,
    c.step p = hand { c with pending := (c.divide p).1, stalls } (c.divide p).2 := by
  obtain ⟨threads, size, slot, pending, fault, batches, rejected, stalls⟩ := c
  cases h
  cases p with
  | fragment f | drained => exact ⟨stalls, rfl⟩
  | idle => exact ⟨stalls + 1, rfl⟩

theorem step_of_fault {c : Collector} {fault : Fault} (h : c.fault = some fault)
    (p : Handoff.Poll) : (c.step p).fault = some fault := by
  have hbroken : c.fault.isSome := by simp [h]
  obtain ⟨stalls, hstep⟩ := step_of_broken hbroken p
  rw [hstep]
  exact h

theorem Gathered.step {c : Collector} {polled : List Fragment} (h : Gathered o c polled)
    (p : Handoff.Poll) : Gathered o (c.step p) (polled ++ p.found) := by
  cases h with
  | broken fault hfault hrefusal =>
    exact .broken fault (step_of_fault hfault p) (hrefusal.append _)
  | held g handed hthreads hslot hfault hkeeps hpolled =>
    obtain ⟨stalls, hstep⟩ := step_of_unbroken hfault p
    have hall : polled ++ p.found = handed ++ (c.divide p).2 ++ (c.divide p).1 := by
      rw [hpolled, List.append_assoc, List.append_assoc, divide_append]
    obtain ⟨hsteady, hspec⟩ := hand_spec (c := { c with pending := (c.divide p).1, stalls })
      hthreads hslot hfault hkeeps (c.divide p).2
    rw [hstep, hall]
    split at hspec
    · obtain ⟨h, hslot, hfault, hkeeps⟩ := hspec
      refine .held h _ hsteady hslot hfault hkeeps ?_
      rw [pending_hand]
    · obtain ⟨fault, hsome, hrefusal⟩ := hspec
      exact .broken fault hsome (hrefusal.append _)

/-- After the end nothing waits. -/
theorem pending_step_drained {c : Collector} (h : (c.step .drained).fault = none) :
    (c.step .drained).pending = [] := by
  cases hf : c.fault with
  | some fault =>
    rw [step_of_fault hf] at h
    cases h
  | none =>
    obtain ⟨stalls, hstep⟩ := step_of_unbroken hf .drained
    rw [hstep, pending_hand]
    rfl

/-- With nothing waiting, the result keeps all that was polled if that is compatible; otherwise the
fault refuses some of it. -/
theorem Gathered.result {c : Collector} {polled : List Fragment} (h : Gathered o c polled)
    (hend : c.fault = none → c.pending = []) :
    if Compatible polled then ∃ g, c.result = .ok g ∧ Keeps o g polled
    else ∃ fault, c.result = .error fault ∧ Refusal polled fault := by
  cases h with
  | broken fault hfault hrefusal =>
    rw [if_neg hrefusal.not_compatible, Collector.result, hfault]
    exact ⟨fault, rfl, hrefusal⟩
  | held g handed hthreads hslot hfault hkeeps hpolled =>
    rw [hend hfault, List.append_nil] at hpolled
    subst hpolled
    rw [if_pos hkeeps.holds.compatible, Collector.result, hfault, hslot]
    exact ⟨_, rfl, hkeeps⟩

/-! ## Whatever the threads do -/

/-- Without a fault the grouping is in its slot. -/
def Holds (c : Collector) : Prop := c.fault = none → c.slot.isSome = true

theorem holds_hand {c : Collector} (h : c.slot.isSome = true) (batch : List Fragment) :
    (c.hand batch).Holds := by
  obtain ⟨g, hslot⟩ := Option.isSome_iff_exists.mp h
  unfold hand
  rw [hslot]
  split
  · exact fun _ => h
  · simp only
    split
    · simp [Holds]
    · unfold settle
      split <;> simp [Holds]

theorem Holds.step {c : Collector} (h : c.Holds) (p : Handoff.Poll) : (c.step p).Holds := by
  cases hfault : c.fault with
  | some fault =>
    intro hnone
    rw [step_of_fault hfault] at hnone
    cases hnone
  | none =>
    obtain ⟨stalls, hstep⟩ := step_of_unbroken hfault p
    have hslot := h hfault
    rw [hstep]
    exact holds_hand (c := { c with pending := (c.divide p).1, stalls }) hslot _

theorem holds_foldl_step (threads : Threads) (o : Grouping.Options) (batchSize : Nat)
    (ps : List Handoff.Poll) : (ps.foldl step (make threads o batchSize)).Holds :=
  List.foldlRecOn ps step (fun _ => rfl) fun _ h p _ => h.step p

/-- A run fails only with the fault of a batch: a batch that loses the grouping has one, so that
the result never finds the slot empty itself. -/
theorem result_foldl_step_eq_error_iff (threads : Threads) (o : Grouping.Options) (batchSize : Nat)
    (ps : List Handoff.Poll) (fault : Fault) :
    (ps.foldl step (make threads o batchSize)).result = .error fault ↔
      (ps.foldl step (make threads o batchSize)).fault = some fault := by
  have hholds := holds_foldl_step threads o batchSize ps
  generalize ps.foldl step (make threads o batchSize) = c at hholds ⊢
  cases hfault : c.fault with
  | some first => simp [result, hfault]
  | none =>
    obtain ⟨g, hslot⟩ := Option.isSome_iff_exists.mp (hholds hfault)
    simp [result, hfault, hslot]

theorem fault_of_result_ok {c : Collector} {g : Grouping} (h : c.result = .ok g) :
    c.fault = none := by
  cases hfault : c.fault with
  | none => rfl
  | some fault =>
    rw [Collector.result, hfault] at h
    cases h

/-- The collector with steady threads. -/
def steadied (c : Collector) : Collector := { c with threads := .steady }

theorem hand_steadied {c : Collector} {batch : List Fragment} (h : (c.hand batch).fault = none) :
    c.steadied.hand batch = (c.hand batch).steadied := by
  have hsame : c.steadied.slot = c.slot := rfl
  unfold hand at h ⊢
  rw [hsame]
  by_cases hempty : batch.isEmpty
  · rw [if_pos hempty, if_pos hempty]
  rw [if_neg hempty] at h
  rw [if_neg hempty, if_neg hempty]
  cases hslot : c.slot with
  | none => simp [hslot] at h
  | some g =>
    rw [hslot] at h
    simp only at h ⊢
    cases hlost : if Grouping.distributes g.options batch.length then c.threads.lost c.batches
      else none with
    | some report => simp [hlost] at h
    | none =>
      rw [hlost] at h
      have hsteady : (if Grouping.distributes g.options batch.length then
          c.steadied.threads.lost c.steadied.batches else none) = none := ite_self _
      rw [hsteady]
      simp only at h ⊢
      cases hrun : (Grouping.insertBatch (c.threads.noPool c.batches) batch).run g with
      | error fault g' => simp [hrun, settle] at h
      | ok _ g' =>
        have hplain : (Grouping.insertBatch (c.steadied.threads.noPool c.steadied.batches)
            batch).run g = .ok () g' := Grouping.run_insertBatch_of_ok hrun
        rw [hplain]
        rfl

/-- A poll that leaves no fault does the same with steady threads. -/
theorem step_steadied {c : Collector} {p : Handoff.Poll} (h : (c.step p).fault = none) :
    c.steadied.step p = (c.step p).steadied := by
  cases hfault : c.fault with
  | some fault =>
    rw [step_of_fault hfault] at h
    cases h
  | none =>
    have hsome : c.fault.isSome ≠ true := by simp [hfault]
    cases p with
    | fragment f | drained | idle =>
      simp only [step, steadied, reduceCtorEq, if_false, if_true, hfault, Option.isSome_none,
        Bool.false_eq_true] at h ⊢
      exact hand_steadied h

end Collector

end SeriesTable
