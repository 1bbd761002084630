import SeriesTable.Proofs.Handoff.Steps

/-
  The traffic through a hand-off: pushes, each with its three steps, polls and the two steps of a
  shutdown, one at a time and in any order. `act` does one step of one of them and `play` any
  number. The traffic keeps a record of what was sent by which push and of what the polls found, so
  that what is said of the order can be read off it.

  `Step` has one constructor for each thing that can happen (`step_act`), and what steps preserve is
  preserved by any number of them (`play_preserves`).
-/

namespace SeriesTable

namespace Handoff

/-- How far a push has come. -/
inductive Progress where
  /-- It has found the hand-off active. -/
  | admitted
  /-- It holds the sending end and waits for room. -/
  | holding
  | done
  | failed (fault : Fault)
  | givenUp
  deriving DecidableEq

/-- A push with how far it has come. -/
structure Push where
  fragment : Fragment
  progress : Progress
  deriving DecidableEq

/-- The push holds the sending end. -/
def Push.holds : Push → Bool
  | ⟨_, .holding⟩ => true
  | _ => false

/-- A hand-off, the pushes in the order in which they began, what was sent and by which of them, and
what the polls have found. -/
structure Traffic where
  handoff : Handoff
  pushes : List Push
  sent : List (Nat × Fragment)
  polls : List Poll

/-- The fragments that polls have found. -/
def found (polls : List Poll) : List Fragment :=
  polls.filterMap fun
    | .fragment f => some f
    | _ => none

namespace Traffic

/-- A step of a push, of the shutdown or of a poll. -/
inductive Action where
  /-- A push begins and looks whether the hand-off is active. -/
  | begin (f : Fragment)
  /-- A push takes hold of the sending end. -/
  | attach (i : Nat)
  /-- A push sends if there is room. -/
  | send (i : Nat)
  /-- A push is given up. -/
  | giveUp (i : Nat)
  /-- The first step of a shutdown. -/
  | deactivate
  /-- The second step of a shutdown. -/
  | release
  | poll
  deriving DecidableEq

/-- A hand-off before any step. -/
def start (capacity : Nat) : Traffic := ⟨make capacity, [], [], []⟩

/-- The traffic before its first step, once there is a hand-off. -/
def tryStart (capacity : Nat) : Attempt Traffic :=
  (tryMake capacity).map fun handoff => ⟨handoff, [], [], []⟩

/-- The traffic with another state of a push. -/
def setPush (s : Traffic) (i : Nat) (p : Push) : Traffic := { s with pushes := s.pushes.set i p }

/-- The traffic after a step. A step that cannot be taken changes nothing. -/
def act (s : Traffic) : Action → Traffic
  | .begin f =>
    match s.handoff.admits with
    | .ok () => { s with pushes := s.pushes ++ [⟨f, .admitted⟩] }
    | .error fault => { s with pushes := s.pushes ++ [⟨f, .failed fault⟩] }
  | .attach i =>
    match s.pushes[i]? with
    | some ⟨f, .admitted⟩ =>
      match s.handoff.attach with
      | .ok handoff => { s.setPush i ⟨f, .holding⟩ with handoff }
      | .error fault => s.setPush i ⟨f, .failed fault⟩
    | _ => s
  | .send i =>
    match s.pushes[i]? with
    | some ⟨f, .holding⟩ =>
      match s.handoff.send? f with
      | some handoff => { s.setPush i ⟨f, .done⟩ with handoff, sent := s.sent ++ [(i, f)] }
      | none => s
    | _ => s
  | .giveUp i =>
    match s.pushes[i]? with
    | some ⟨f, .admitted⟩ => s.setPush i ⟨f, .givenUp⟩
    | some ⟨f, .holding⟩ => { s.setPush i ⟨f, .givenUp⟩ with handoff := s.handoff.detach }
    | _ => s
  | .deactivate => { s with handoff := s.handoff.deactivate }
  | .release => if s.handoff.active then s else { s with handoff := s.handoff.release }
  | .poll => { s with handoff := s.handoff.poll.2, polls := s.polls ++ [s.handoff.poll.1] }

/-- The traffic after some steps. -/
def play (s : Traffic) (acts : List Action) : Traffic := acts.foldl act s

/-- Nothing is queued, and nobody can send any more. -/
structure Closed (s : Traffic) : Prop where
  queue : s.handoff.queue = []
  reachable : s.handoff.reachable = false
  senders : s.handoff.senders = 0

theorem poll_of_closed {s : Traffic} (h : s.Closed) : s.handoff.poll = (.drained, s.handoff) := by
  rw [poll_of_nil h.queue, h.reachable, h.senders]
  rfl

theorem poll_of_open {s : Traffic} (hq : s.handoff.queue = []) (h : ¬ s.Closed) :
    s.handoff.poll = (.idle, s.handoff) := by
  rw [poll_of_nil hq, if_pos]
  cases hreachable : s.handoff.reachable with
  | true => exact .inl rfl
  | false => exact .inr (Nat.pos_of_ne_zero fun hsenders => h ⟨hq, hreachable, hsenders⟩)

theorem closed_of_poll {s : Traffic} (h : s.handoff.poll.1 = .drained) : s.Closed := by
  cases hq : s.handoff.queue with
  | cons f rest =>
    rw [poll_of_cons hq] at h
    cases h
  | nil =>
    refine Classical.byContradiction fun hopen => ?_
    rw [poll_of_open hq hopen] at h
    cases h

theorem tryStart_eq (capacity : Nat) :
    tryStart capacity = if capacity ≤ mostPermits then .ended (start capacity) else .brokenOff := by
  rw [tryStart, tryMake_eq]
  split <;> rfl

/-! ## Steps -/

variable {s s' : Traffic} {capacity : Nat}

/-- What a step can do. -/
inductive Step (s : Traffic) : Traffic → Prop where
  | admitted {f : Fragment} (hactive : s.handoff.active = true) :
      Step s { s with pushes := s.pushes ++ [⟨f, .admitted⟩] }
  | refused {f : Fragment} (hactive : s.handoff.active = false) :
      Step s { s with pushes := s.pushes ++ [⟨f, .failed .bufferClosed⟩] }
  | attached {i : Nat} {f : Fragment} (hp : s.pushes[i]? = some ⟨f, .admitted⟩)
      (hreachable : s.handoff.reachable = true) :
      Step s { s.setPush i ⟨f, .holding⟩ with
        handoff := { s.handoff with senders := s.handoff.senders + 1 } }
  | missed {i : Nat} {f : Fragment} (hp : s.pushes[i]? = some ⟨f, .admitted⟩)
      (hreachable : s.handoff.reachable = false) :
      Step s (s.setPush i ⟨f, .failed .bufferClosed⟩)
  | sent {i : Nat} {f : Fragment} (hp : s.pushes[i]? = some ⟨f, .holding⟩)
      (hroom : s.handoff.hasRoom = true) :
      Step s { s.setPush i ⟨f, .done⟩ with
        handoff := { s.handoff with
          queue := s.handoff.queue ++ [f]
          senders := s.handoff.senders - 1 }
        sent := s.sent ++ [(i, f)] }
  | left {i : Nat} {f : Fragment} (hp : s.pushes[i]? = some ⟨f, .admitted⟩) :
      Step s (s.setPush i ⟨f, .givenUp⟩)
  | detached {i : Nat} {f : Fragment} (hp : s.pushes[i]? = some ⟨f, .holding⟩) :
      Step s { s.setPush i ⟨f, .givenUp⟩ with
        handoff := { s.handoff with senders := s.handoff.senders - 1 } }
  | deactivated : Step s { s with handoff := { s.handoff with active := false } }
  | released (hactive : s.handoff.active = false) :
      Step s { s with handoff := { s.handoff with reachable := false } }
  | polled {f : Fragment} {rest : List Fragment} (hq : s.handoff.queue = f :: rest) :
      Step s { s with
        handoff := { s.handoff with queue := rest }
        polls := s.polls ++ [.fragment f] }
  | idle (hopen : ¬ s.Closed) : Step s { s with polls := s.polls ++ [.idle] }
  | drained (hclosed : s.Closed) : Step s { s with polls := s.polls ++ [.drained] }

theorem step_begin (s : Traffic) (f : Fragment) : Step s (s.act (.begin f)) := by
  rw [act, admits]
  cases hactive : s.handoff.active with
  | true => exact .admitted hactive
  | false => exact .refused hactive

theorem step_attach (s : Traffic) (i : Nat) :
    s.act (.attach i) = s ∨ Step s (s.act (.attach i)) := by
  rw [act]
  split
  · rename_i f hp
    rw [attach]
    by_cases hreachable : s.handoff.reachable = true
    · rw [if_pos hreachable]
      exact .inr (.attached hp hreachable)
    · rw [if_neg hreachable]
      exact .inr (.missed hp (eq_false_of_ne_true hreachable))
  · exact .inl rfl

theorem step_send (s : Traffic) (i : Nat) : s.act (.send i) = s ∨ Step s (s.act (.send i)) := by
  rw [act]
  split
  · rename_i f hp
    cases hsend : s.handoff.send? f with
    | none => exact .inl rfl
    | some handoff =>
      obtain ⟨hroom, rfl⟩ := send?_eq_some_iff.mp hsend
      exact .inr (.sent hp hroom)
  · exact .inl rfl

theorem step_giveUp (s : Traffic) (i : Nat) :
    s.act (.giveUp i) = s ∨ Step s (s.act (.giveUp i)) := by
  rw [act]
  split
  · exact .inr (.left ‹_›)
  · exact .inr (.detached ‹_›)
  · exact .inl rfl

theorem step_release (s : Traffic) : s.act .release = s ∨ Step s (s.act .release) := by
  rw [act]
  cases hactive : s.handoff.active with
  | true => exact .inl rfl
  | false => exact .inr (.released hactive)

theorem step_poll (s : Traffic) : Step s (s.act .poll) := by
  rw [act]
  cases hq : s.handoff.queue with
  | cons f rest =>
    rw [poll_of_cons hq]
    exact .polled hq
  | nil =>
    by_cases hclosed : s.Closed
    · rw [poll_of_closed hclosed]
      exact .drained hclosed
    · rw [poll_of_open hq hclosed]
      exact .idle hclosed

theorem step_act (s : Traffic) (a : Action) : s.act a = s ∨ Step s (s.act a) := by
  cases a with
  | begin f => exact .inr (s.step_begin f)
  | attach i => exact s.step_attach i
  | send i => exact s.step_send i
  | giveUp i => exact s.step_giveUp i
  | deactivate => exact .inr .deactivated
  | release => exact s.step_release
  | poll => exact .inr s.step_poll

/-- What every step preserves is preserved by any number of them. -/
theorem play_preserves {P : Traffic → Prop} (hstep : ∀ s s', P s → Step s s' → P s') (h : P s)
    (acts : List Action) : P (s.play acts) := by
  induction acts generalizing s with
  | nil => exact h
  | cons a acts ih =>
    refine ih ?_
    rcases s.step_act a with heq | ha
    · rw [heq]
      exact h
    · exact hstep s _ h ha

end Traffic

end Handoff

end SeriesTable
