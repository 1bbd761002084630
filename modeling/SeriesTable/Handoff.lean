import SeriesTable.Fragment
import SeriesTable.Reservation

/-
  The hand-off between the workers that fetch fragments and the one that collects them: a queue of
  bounded length. A push has three steps, which other pushes, polls and the shutdown may come
  between: it looks whether the hand-off is active (`admits`), takes hold of the sending end
  (`attach`), and puts its fragment into the queue when there is room (`send?`). A shutdown
  first ends the activity and then lets go of the sending end. The queue is at its end when it is
  empty and nobody holds the sending end any more.
-/

namespace SeriesTable

/-- A queue of fragments, and who may still put some into it. -/
structure Handoff where
  capacity : Nat
  queue : List Fragment
  active : Bool
  /-- The sending end is there to be taken hold of. -/
  reachable : Bool
  /-- Pushes that hold the sending end. -/
  senders : Nat
  capacity_pos : 0 < capacity

namespace Handoff

/-- An empty hand-off; it has room for one fragment at least. -/
def make (capacity : Nat) : Handoff where
  capacity := max 1 capacity
  queue := []
  active := true
  reachable := true
  senders := 0
  capacity_pos := by omega

/-- The most fragments that room can be asked for. -/
def mostPermits : Nat := 2305843009213693951

/-- The hand-off, unless room for too many fragments is asked for. -/
def tryMake (capacity : Nat) : Attempt Handoff :=
  if max 1 capacity ≤ mostPermits then .ended (make capacity) else .brokenOff

/-! ## Steps -/

/-- The first step of a push. -/
def admits (h : Handoff) : Except Fault Unit :=
  if h.active then .ok () else .error .bufferClosed

/-- The second step of a push. -/
def attach (h : Handoff) : Except Fault Handoff :=
  if h.reachable then .ok { h with senders := h.senders + 1 } else .error .bufferClosed

/-- One more fragment fits into the queue. -/
def hasRoom (h : Handoff) : Bool := h.queue.length < h.capacity

/-- The last step of a push, which lets go of the sending end. -/
def send? (h : Handoff) (f : Fragment) : Option Handoff :=
  if h.hasRoom then some { h with queue := h.queue ++ [f], senders := h.senders - 1 } else none

/-- A push that is given up lets go of the sending end. -/
def detach (h : Handoff) : Handoff := { h with senders := h.senders - 1 }

/-- The first step of a shutdown. -/
def deactivate (h : Handoff) : Handoff := { h with active := false }

/-- The second step of a shutdown. -/
def release (h : Handoff) : Handoff := { h with reachable := false }

/-- What a poll finds. -/
inductive Poll where
  | fragment (f : Fragment)
  | idle
  | drained
  deriving DecidableEq, Repr

/-- The first fragment of the queue; otherwise whether there can be more. -/
def poll (h : Handoff) : Poll × Handoff :=
  match h.queue with
  | f :: rest => (.fragment f, { h with queue := rest })
  | [] => if h.reachable ∨ 0 < h.senders then (.idle, h) else (.drained, h)

/-! ## Steps in a row -/

/-- A shutdown whose steps follow one another. -/
def shutdown (h : Handoff) : Handoff := h.deactivate.release

/-- The first two steps of a push. -/
def attachIfActive (h : Handoff) : Except Fault Handoff := do
  h.admits
  h.attach

/-- What becomes of a push that does not wait. -/
inductive Pushed where
  | queued
  | full
  deriving DecidableEq, Repr

/-- A push whose steps follow one another. It is given up if there is no room. -/
def push (h : Handoff) (f : Fragment) : Except Fault (Pushed × Handoff) := do
  let held ← h.attachIfActive
  match held.send? f with
  | some sent => return (.queued, sent)
  | none => return (.full, held.detach)

end Handoff

end SeriesTable
