import SeriesTable.Proofs.Handoff.Traffic
import SeriesTable.Proofs.Lists

/-
  What pushes and polls can rely on, whatever the order of their steps and of a shutdown's. Three
  things hold after every step. The hand-off counts the pushes that hold the sending end, and the
  end is let go of only after the activity has ended (`Linked`). What was sent was polled in this
  order or is in the queue, and a push that is done has sent its fragment once (`Conserved`). A poll
  finds the hand-off drained only when it is closed for good, and then every later one does
  (`Final`).

  A push that has found the hand-off active but has not taken hold of the sending end is not waited
  for. Polls can find the hand-off drained while there is one (`drained_admitted`); once the sending
  end is let go of, it fails if it goes on, and never sends (`Sound.missed`).

  Main statement: `play_safe`, for every capacity that a hand-off can have and every order of the
  steps.
-/

namespace SeriesTable

namespace Handoff

namespace Traffic

variable {s s' : Traffic} {capacity : Nat}

/-! ## The sending end -/

/-- The pushes that hold the sending end are counted, and it is let go of only after the activity
has ended. -/
structure Linked (s : Traffic) : Prop where
  senders : s.handoff.senders = s.pushes.countP Push.holds
  shut : s.handoff.reachable = false → s.handoff.active = false

theorem linked_start (capacity : Nat) : (start capacity).Linked := ⟨rfl, fun h => by cases h⟩

namespace Linked

theorem senders_pos (h : s.Linked) {i : Nat} {f : Fragment}
    (hp : s.pushes[i]? = some ⟨f, .holding⟩) : 0 < s.handoff.senders := by
  rw [h.senders]
  exact List.countP_pos_iff.mpr ⟨_, List.mem_of_getElem? hp, rfl⟩

/-- A push that comes to hold the sending end, or lets go of it, changes the number by one. -/
theorem senders_set (h : s.Linked) {i n : Nat} {p q : Push} (hp : s.pushes[i]? = some p)
    (hn : n + p.holds.toNat = s.handoff.senders + q.holds.toNat) :
    n = (s.pushes.set i q).countP Push.holds := by
  have hset := countP_set_add hp q Push.holds
  have hsenders := h.senders
  omega

theorem senders_append (h : s.Linked) {p : Push} (hp : p.holds = false) :
    s.handoff.senders = (s.pushes ++ [p]).countP Push.holds := by
  rw [List.countP_append, List.countP_singleton, hp]
  exact h.senders

theorem step (h : s.Linked) (hs : Step s s') : s'.Linked := by
  cases hs with
  | admitted | refused => exact ⟨h.senders_append rfl, h.shut⟩
  | attached hp => exact ⟨h.senders_set hp rfl, h.shut⟩
  | missed hp | left hp => exact ⟨h.senders_set hp rfl, h.shut⟩
  | sent hp | detached hp =>
    have hpos := h.senders_pos hp
    exact ⟨h.senders_set hp (Nat.sub_add_cancel hpos), h.shut⟩
  | deactivated => exact ⟨h.senders, fun _ => rfl⟩
  | released hactive => exact ⟨h.senders, fun _ => hactive⟩
  | polled | idle | drained => exact ⟨h.senders, h.shut⟩

end Linked

/-! ## The queue -/

/-- What was sent was polled, in this order, or is in the queue; and what was sent are the fragments
of the pushes that are done. -/
structure Conserved (capacity : Nat) (s : Traffic) : Prop where
  capacity : s.handoff.capacity = max 1 capacity
  room : s.handoff.queue.length ≤ s.handoff.capacity
  flow : found s.polls ++ s.handoff.queue = s.sent.map (·.2)
  sent_iff : ∀ i f, (i, f) ∈ s.sent ↔ s.pushes[i]? = some ⟨f, .done⟩
  once : (s.sent.map (·.1)).Nodup

theorem conserved_start (capacity : Nat) : (start capacity).Conserved capacity where
  capacity := rfl
  room := Nat.zero_le _
  flow := rfl
  sent_iff := by simp [start]
  once := .nil

theorem found_append (before after : List Poll) :
    found (before ++ after) = found before ++ found after :=
  List.filterMap_append

section Pushes

variable {pushes : List Push} {i : Nat} {p q : Push}

theorem done_set (hp : pushes[i]? = some p) (hold : p.progress ≠ .done) (hnew : q.progress ≠ .done)
    (j : Nat) (f : Fragment) :
    (pushes.set i q)[j]? = some ⟨f, .done⟩ ↔ pushes[j]? = some ⟨f, .done⟩ := by
  rw [List.getElem?_set]
  split
  · rename_i hij
    subst hij
    rw [if_pos (List.getElem?_eq_some_iff.mp hp).1, hp]
    refine iff_of_false ?_ ?_
    · rintro heq
      cases heq
      exact hnew rfl
    · rintro heq
      cases heq
      exact hold rfl
  · rfl

theorem done_append (hq : q.progress ≠ .done) (j : Nat) (f : Fragment) :
    (pushes ++ [q])[j]? = some ⟨f, .done⟩ ↔ pushes[j]? = some ⟨f, .done⟩ := by
  rw [List.getElem?_append]
  split
  · rfl
  · rename_i hj
    rw [List.getElem?_eq_none (Nat.le_of_not_lt hj)]
    refine iff_of_false ?_ (by simp)
    intro heq
    have hmem := List.mem_of_getElem? heq
    rw [List.mem_singleton] at hmem
    exact hq (hmem ▸ rfl)

end Pushes

namespace Conserved

theorem append (h : s.Conserved capacity) {q : Push} (hq : q.progress ≠ .done) :
    ({ s with pushes := s.pushes ++ [q] } : Traffic).Conserved capacity where
  capacity := h.capacity
  room := h.room
  flow := h.flow
  sent_iff j f := (h.sent_iff j f).trans (done_append hq j f).symm
  once := h.once

/-- A push that does not send changes nothing of what was sent. -/
theorem setPush (h : s.Conserved capacity) {i : Nat} {p q : Push} (hp : s.pushes[i]? = some p)
    (hold : p.progress ≠ .done) (hnew : q.progress ≠ .done) (n : Nat) :
    ({ s.setPush i q with
      handoff := { s.handoff with senders := n } } : Traffic).Conserved capacity where
  capacity := h.capacity
  room := h.room
  flow := h.flow
  sent_iff j f := (h.sent_iff j f).trans (done_set hp hold hnew j f).symm
  once := h.once

theorem sent (h : s.Conserved capacity) {i : Nat} {f : Fragment}
    (hp : s.pushes[i]? = some ⟨f, .holding⟩) (hroom : s.handoff.hasRoom = true) (n : Nat) :
    ({ s.setPush i ⟨f, .done⟩ with
      handoff := { s.handoff with queue := s.handoff.queue ++ [f], senders := n }
      sent := s.sent ++ [(i, f)] } : Traffic).Conserved capacity := by
  have hnew : ∀ d, (i, d) ∉ s.sent := by
    intro d hd
    rw [h.sent_iff, hp] at hd
    cases hd
  refine ⟨h.capacity, ?_, ?_, ?_, ?_⟩
  · have hlt : s.handoff.queue.length < s.handoff.capacity := of_decide_eq_true hroom
    show (s.handoff.queue ++ [f]).length ≤ s.handoff.capacity
    rw [List.length_append]
    exact hlt
  · show found s.polls ++ (s.handoff.queue ++ [f]) = (s.sent ++ [(i, f)]).map (·.2)
    rw [← List.append_assoc, h.flow, List.map_append]
    rfl
  · intro j d
    show (j, d) ∈ s.sent ++ [(i, f)] ↔ (s.pushes.set i ⟨f, .done⟩)[j]? = some ⟨d, .done⟩
    rw [List.mem_append, List.mem_singleton, List.getElem?_set]
    by_cases hij : i = j
    · subst hij
      rw [if_pos rfl, if_pos (List.getElem?_eq_some_iff.mp hp).1]
      simp [hnew d, eq_comm]
    · rw [if_neg hij, h.sent_iff]
      simp [Ne.symm hij]
  · show ((s.sent ++ [(i, f)]).map (·.1)).Nodup
    rw [List.map_append, List.map_singleton, List.nodup_append]
    refine ⟨h.once, List.pairwise_singleton .., ?_⟩
    intro j hj k hk heq
    obtain ⟨e, he, rfl⟩ := List.mem_map.mp hj
    rw [List.mem_singleton] at hk
    obtain rfl : e.1 = i := heq.trans hk
    exact hnew e.2 he

theorem step (h : s.Conserved capacity) (hs : Step s s') : s'.Conserved capacity := by
  cases hs with
  | admitted | refused => exact h.append (by simp)
  | attached hp => exact h.setPush hp (by simp) (by simp) _
  | missed hp | left hp => exact h.setPush hp (by simp) (by simp) _
  | sent hp hroom => exact h.sent hp hroom _
  | detached hp => exact h.setPush hp (by simp) (by simp) _
  | deactivated | released => exact ⟨h.capacity, h.room, h.flow, h.sent_iff, h.once⟩
  | @polled f rest hq =>
    have hroom := h.room
    have hflow := h.flow
    rw [hq] at hroom hflow
    refine ⟨h.capacity, Nat.le_of_succ_le hroom, ?_, h.sent_iff, h.once⟩
    show found (s.polls ++ [.fragment f]) ++ rest = _
    rw [found_append, ← hflow, List.append_assoc]
    rfl
  | idle | drained =>
    refine ⟨h.capacity, h.room, ?_, h.sent_iff, h.once⟩
    show found (s.polls ++ [_]) ++ _ = _
    rw [found_append, ← h.flow]
    simp [found]

end Conserved

/-! ## The end -/

/-- What is closed stays closed, and nothing is sent. -/
theorem Closed.step (hl : s.Linked) (h : s.Closed) (hs : Step s s') :
    s'.Closed ∧ s'.sent = s.sent := by
  cases hs with
  | admitted | refused | missed | left | deactivated | idle | drained =>
    exact ⟨⟨h.queue, h.reachable, h.senders⟩, rfl⟩
  | released => exact ⟨⟨h.queue, rfl, h.senders⟩, rfl⟩
  | attached _ hreachable =>
    rw [h.reachable] at hreachable
    cases hreachable
  | sent hp | detached hp =>
    have hpos := hl.senders_pos hp
    rw [h.senders] at hpos
    cases hpos
  | polled hq =>
    rw [h.queue] at hq
    cases hq

/-- Once a poll has found the hand-off drained it is closed, and all later polls find the same. -/
structure Final (s : Traffic) : Prop where
  closed : .drained ∈ s.polls → s.Closed
  last : s.polls.Pairwise fun p q => p = .drained → q = .drained

theorem final_start (capacity : Nat) : (start capacity).Final where
  closed h := by cases h
  last := .nil

theorem Final.poll (h : s.Final) {p : Poll} (hpolls : s'.polls = s.polls ++ [p])
    (hnew : p = .drained → s'.Closed) (hold : .drained ∈ s.polls → p = .drained) : s'.Final where
  closed hd := by
    rw [hpolls, List.mem_append, List.mem_singleton] at hd
    rcases hd with hd | hd
    · exact hnew (hold hd)
    · exact hnew hd.symm
  last := by
    rw [hpolls, List.pairwise_append]
    refine ⟨h.last, List.pairwise_singleton .., ?_⟩
    rintro d hd q hq rfl
    rw [List.mem_singleton.mp hq]
    exact hold hd

theorem Final.step (hl : s.Linked) (h : s.Final) (hs : Step s s') : s'.Final := by
  have hclosed : .drained ∈ s.polls → s'.Closed := fun hd => ((h.closed hd).step hl hs).1
  cases hs with
  | admitted | refused | attached | missed | sent | left | detached | deactivated | released =>
    exact ⟨hclosed, h.last⟩
  | polled hq =>
    refine h.poll rfl (fun heq => by cases heq) fun hd => ?_
    rw [(h.closed hd).queue] at hq
    cases hq
  | idle hopen =>
    exact h.poll rfl (fun heq => by cases heq) fun hd => absurd (h.closed hd) hopen
  | drained hnow =>
    exact h.poll rfl (fun _ => ⟨hnow.queue, hnow.reachable, hnow.senders⟩) fun _ => rfl

/-! ## Everything that happens -/

/-- What holds after every step. -/
structure Sound (capacity : Nat) (s : Traffic) : Prop where
  linked : s.Linked
  conserved : s.Conserved capacity
  final : s.Final

theorem sound_start (capacity : Nat) : (start capacity).Sound capacity :=
  ⟨linked_start capacity, conserved_start capacity, final_start capacity⟩

namespace Sound

theorem step (h : s.Sound capacity) (hs : Step s s') : s'.Sound capacity :=
  ⟨h.linked.step hs, h.conserved.step hs, h.final.step h.linked hs⟩

theorem play (h : s.Sound capacity) (acts : List Action) : (s.play acts).Sound capacity :=
  play_preserves (fun _ _ h hs => h.step hs) h acts

theorem begin (h : s.Sound capacity) (f : Fragment) : (s.act (.begin f)).Sound capacity :=
  h.step (s.step_begin f)

/-- When a poll has found the hand-off drained, the polls before it have found all that is ever
sent, and the polls after it find it drained. -/
theorem found_before (h : s.Sound capacity) {before after : List Poll}
    (hpolls : s.polls = before ++ .drained :: after) :
    found before = s.sent.map (·.2) ∧ ∀ p ∈ after, p = .drained := by
  have hclosed : s.Closed := h.final.closed (by simp [hpolls])
  have hlast := h.final.last
  rw [hpolls, List.pairwise_append, List.pairwise_cons] at hlast
  have hafter : ∀ p ∈ after, p = .drained := fun p hp => hlast.2.1.1 p hp rfl
  have hnothing : found (.drained :: after) = [] := by
    refine List.filterMap_eq_nil_iff.mpr fun p hp => ?_
    rcases List.mem_cons.mp hp with rfl | hp
    · rfl
    · rw [hafter p hp]
  have hflow := h.conserved.flow
  rw [hclosed.queue, List.append_nil, hpolls] at hflow
  refine ⟨?_, hafter⟩
  rw [← hflow, found_append, hnothing, List.append_nil]

/-- What is closed stays closed, and no push sends or comes to hold the sending end. -/
theorem closed_play (h : s.Sound capacity) (hclosed : s.Closed) (acts : List Action) :
    (s.play acts).Closed ∧ (s.play acts).sent = s.sent ∧
      ∀ p ∈ (s.play acts).pushes, p.holds = false := by
  obtain ⟨hsound, hlater, hsent⟩ : (s.play acts).Sound capacity ∧ (s.play acts).Closed ∧
      (s.play acts).sent = s.sent := by
    refine play_preserves (P := fun t => t.Sound capacity ∧ t.Closed ∧ t.sent = s.sent) ?_
      ⟨h, hclosed, rfl⟩ acts
    rintro t t' ⟨ht, hclosed, hsent⟩ hs
    obtain ⟨hnext, hsame⟩ := hclosed.step ht.linked hs
    exact ⟨ht.step hs, hnext, hsame.trans hsent⟩
  refine ⟨hlater, hsent, fun p hp => eq_false_of_ne_true ?_⟩
  have hnone := hsound.linked.senders.symm.trans hlater.senders
  exact List.countP_eq_zero.mp hnone p hp

end Sound

/-- A push that has failed is left as it is. -/
theorem Step.failed (hs : Step s s') {i : Nat} {f : Fragment} {fault : Fault}
    (hi : s.pushes[i]? = some ⟨f, .failed fault⟩) : s'.pushes[i]? = some ⟨f, .failed fault⟩ := by
  have hset : ∀ {j : Nat} {p q : Push}, s.pushes[j]? = some p → p ≠ ⟨f, .failed fault⟩ →
      (s.pushes.set j q)[i]? = some ⟨f, .failed fault⟩ := by
    intro j p q hp hne
    rw [List.getElem?_set_ne, hi]
    intro hij
    rw [hij, hi] at hp
    exact hne (Option.some.inj hp).symm
  cases hs with
  | admitted | refused => exact List.getElem?_append_left (List.getElem?_eq_some_iff.mp hi).1 ▸ hi
  | attached hp | missed hp | sent hp | left hp | detached hp => exact hset hp (by simp)
  | deactivated | released | polled | idle | drained => exact hi

/-- A push that begins once the hand-off is not active any more fails and sends nothing. -/
theorem Sound.refused (h : s.Sound capacity) (hactive : s.handoff.active = false) (f : Fragment)
    (acts : List Action) :
    ((s.act (.begin f)).play acts).pushes[s.pushes.length]? = some ⟨f, .failed .bufferClosed⟩ ∧
      ∀ d, (s.pushes.length, d) ∉ ((s.act (.begin f)).play acts).sent := by
  have hbegin : s.act (.begin f) =
      { s with pushes := s.pushes ++ [⟨f, .failed .bufferClosed⟩] } := by
    rw [act, admits, hactive]
    rfl
  have hfailed : ((s.act (.begin f)).play acts).pushes[s.pushes.length]? =
      some ⟨f, .failed .bufferClosed⟩ := by
    refine play_preserves (P := fun t => t.pushes[s.pushes.length]? = _)
      (fun _ _ ht hs => hs.failed ht) ?_ acts
    rw [hbegin]
    simp
  refine ⟨hfailed, fun d hd => ?_⟩
  rw [((h.begin f).play acts).conserved.sent_iff, hfailed] at hd
  cases hd

/-- The push has found the hand-off active and came no further, or has failed or was given up. -/
def Outside (f : Fragment) (p : Push) : Prop :=
  p = ⟨f, .admitted⟩ ∨ p = ⟨f, .failed .bufferClosed⟩ ∨ p = ⟨f, .givenUp⟩

/-- Once the sending end is let go of it stays so, and a push that is outside stays outside. -/
theorem Step.outside (hs : Step s s') (hreachable : s.handoff.reachable = false) {i : Nat}
    {f : Fragment} (h : ∃ p, s.pushes[i]? = some p ∧ Outside f p) :
    s'.handoff.reachable = false ∧ ∃ p, s'.pushes[i]? = some p ∧ Outside f p := by
  obtain ⟨p, hi, hp⟩ := h
  have hset : ∀ {j : Nat} {old new : Push}, s.pushes[j]? = some old →
      (old = p → Outside f new) → ∃ q, (s.pushes.set j new)[i]? = some q ∧ Outside f q := by
    intro j old new hold hnew
    by_cases hij : j = i
    · subst hij
      rw [List.getElem?_set_self (List.getElem?_eq_some_iff.mp hold).1]
      exact ⟨new, rfl, hnew (Option.some.inj (hold.symm.trans hi))⟩
    · rw [List.getElem?_set_ne hij]
      exact ⟨p, hi, hp⟩
  cases hs with
  | admitted | refused =>
    exact ⟨hreachable, p, List.getElem?_append_left (List.getElem?_eq_some_iff.mp hi).1 ▸ hi, hp⟩
  | attached _ hopen =>
    rw [hreachable] at hopen
    cases hopen
  | missed hold =>
    refine ⟨hreachable, hset hold ?_⟩
    rintro rfl
    simp_all [Outside]
  | left hold =>
    refine ⟨hreachable, hset hold ?_⟩
    rintro rfl
    simp_all [Outside]
  | sent hold | detached hold =>
    refine ⟨hreachable, hset hold ?_⟩
    rintro rfl
    simp [Outside] at hp
  | released => exact ⟨rfl, p, hi, hp⟩
  | deactivated | polled | idle | drained => exact ⟨hreachable, p, hi, hp⟩

/-- A push that does not hold the sending end when it is let go of fails as soon as it goes on, and
sends nothing, whatever is done. -/
theorem Sound.missed (h : s.Sound capacity) (hreachable : s.handoff.reachable = false) {i : Nat}
    {f : Fragment} (hi : s.pushes[i]? = some ⟨f, .admitted⟩) :
    (s.act (.attach i)).pushes[i]? = some ⟨f, .failed .bufferClosed⟩ ∧
      ∀ acts d, (i, d) ∉ (s.play acts).sent := by
  constructor
  · have hact : s.act (.attach i) = s.setPush i ⟨f, .failed .bufferClosed⟩ := by
      rw [act, hi]
      simp [attach, hreachable]
    rw [hact]
    exact List.getElem?_set_self (List.getElem?_eq_some_iff.mp hi).1
  · intro acts d hd
    obtain ⟨-, p, hp, houtside⟩ : (s.play acts).handoff.reachable = false ∧
        ∃ p, (s.play acts).pushes[i]? = some p ∧ Outside f p :=
      play_preserves (fun _ _ ht hs => hs.outside ht.1 ht.2) ⟨hreachable, _, hi, .inl rfl⟩ acts
    rw [(h.play acts).conserved.sent_iff, hp] at hd
    simp_all [Outside]

/-! ## What can be relied on -/

/-- What pushes and polls can rely on at any time, now and whatever is done later. -/
structure Safe (capacity : Nat) (s : Traffic) : Prop where
  /-- What the polls have found is, in order, the first of what was sent. -/
  found_prefix : found s.polls <+: s.sent.map (·.2)
  /-- What they have not found yet is in the queue, in order. -/
  rest_queued : found s.polls ++ s.handoff.queue = s.sent.map (·.2)
  room : s.handoff.queue.length ≤ max 1 capacity
  /-- The pushes that are done have sent their fragments. -/
  sent_iff : ∀ i f, (i, f) ∈ s.sent ↔ s.pushes[i]? = some ⟨f, .done⟩
  /-- No push has sent twice. -/
  once : (s.sent.map (·.1)).Nodup
  /-- All that is sent at any time has been found before a poll finds the hand-off drained. -/
  found_before : ∀ before after, s.polls = before ++ .drained :: after →
    found before = s.sent.map (·.2) ∧ ∀ p ∈ after, p = .drained
  /-- A push that begins after the first step of a shutdown fails and never sends. -/
  refused : s.handoff.active = false → ∀ f acts,
    ((s.act (.begin f)).play acts).pushes[s.pushes.length]? = some ⟨f, .failed .bufferClosed⟩ ∧
      ∀ d, (s.pushes.length, d) ∉ ((s.act (.begin f)).play acts).sent
  /-- A push that was admitted but does not hold the sending end when a shutdown lets go of it fails
  as soon as it goes on, and never sends. -/
  missed : s.handoff.reachable = false → ∀ i f, s.pushes[i]? = some ⟨f, .admitted⟩ →
    (s.act (.attach i)).pushes[i]? = some ⟨f, .failed .bufferClosed⟩ ∧
      ∀ acts d, (i, d) ∉ (s.play acts).sent
  /-- A poll finds the hand-off drained after a shutdown only, with nothing in the queue and no push
  that holds the sending end; and so it is for all polls from then on. -/
  drained : s.handoff.poll.1 = .drained →
    s.handoff.active = false ∧ s.handoff.reachable = false ∧ s.handoff.queue = [] ∧
      ∀ acts, (s.play acts).handoff.poll.1 = .drained ∧ (s.play acts).sent = s.sent ∧
        ∀ p ∈ (s.play acts).pushes, p.holds = false

/-- Every hand-off that there can be: whatever steps are taken, and in whatever order, the pushes
and polls can rely on this. -/
theorem play_safe {capacity : Nat} (hcapacity : capacity ≤ mostPermits) :
    ∃ s, tryStart capacity = .ended s ∧ ∀ acts, (s.play acts).Safe capacity := by
  refine ⟨start capacity, by rw [tryStart_eq, if_pos hcapacity], fun acts => ?_⟩
  have h := (sound_start capacity).play acts
  have hconserved := h.conserved
  refine
    { found_prefix := ⟨_, hconserved.flow⟩
      rest_queued := hconserved.flow
      room := hconserved.capacity ▸ hconserved.room
      sent_iff := hconserved.sent_iff
      once := hconserved.once
      found_before := fun before after hpolls => h.found_before hpolls
      refused := h.refused
      missed := fun hreachable i f hi => h.missed hreachable hi
      drained := fun hpoll => ?drained }
  have hclosed := closed_of_poll hpoll
  refine ⟨h.linked.shut hclosed.reachable, hclosed.reachable, hclosed.queue, fun more => ?_⟩
  obtain ⟨hlater, hsent, hholds⟩ := h.closed_play hclosed more
  exact ⟨by rw [poll_of_closed hlater], hsent, hholds⟩

def reading : Fragment := ⟨"load", .int, [.int 1], .list [0], 4⟩

/-- A push that took hold of the sending end before the shutdown sends after it and is polled,
before the first poll that finds the hand-off drained. -/
theorem play_safe_late :
    0 ≤ mostPermits ∧ ∃ s, tryStart 0 = .ended s ∧
      let t := s.play
        [.begin reading, .attach 0, .deactivate, .release, .poll, .send 0, .poll, .poll]
      t.polls = [.idle, .fragment reading, .drained] ∧ t.sent = [(0, reading)] ∧
        found [.idle, .fragment reading] = t.sent.map (·.2) := by
  obtain ⟨s, hs, hsafe⟩ := play_safe (Nat.zero_le mostPermits)
  refine ⟨by decide, s, hs, ?_⟩
  obtain rfl : start 0 = s := Attempt.ended.inj hs
  have hpolls : ((start 0).play [.begin reading, .attach 0, .deactivate, .release, .poll, .send 0,
      .poll, .poll]).polls = [.idle, .fragment reading] ++ .drained :: [] := by decide
  exact ⟨hpolls, by decide, ((hsafe _).found_before _ _ hpolls).1⟩

/-- Polls can find the hand-off drained while a push goes on that was admitted before the shutdown.
And a hand-off for too many fragments there is none. -/
theorem drained_admitted :
    (∃ s, tryStart 1 = .ended s ∧
      let t := s.play [.begin reading, .deactivate, .release, .poll]
      t.polls = [.drained] ∧ t.pushes = [⟨reading, .admitted⟩]) ∧
    tryStart mostCount = .brokenOff :=
  ⟨⟨start 1, rfl, by decide⟩, rfl⟩

end Traffic

end Handoff

end SeriesTable
