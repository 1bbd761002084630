/-
  Room that is reserved in memory before anything is put into it. One reservation is of no more
  bytes than a signed word counts. A computation that asks for more breaks off on the spot, whatever
  it would have come to.
-/

namespace SeriesTable

/-- What becomes of a computation that may break off. -/
inductive Attempt (α : Type) where
  | brokenOff
  | ended (x : α)
  deriving DecidableEq, Repr

/-- The most bytes of one reservation. -/
def mostBytes : Nat := 9223372036854775807

/-- The greatest number of things that can be asked for. -/
def mostCount : Nat := 18446744073709551615

/-- Room for so many things of so many bytes each can be reserved. -/
def Reservable (count bytes : Nat) : Prop := count * bytes ≤ mostBytes

instance (count bytes : Nat) : Decidable (Reservable count bytes) :=
  inferInstanceAs (Decidable (_ ≤ _))

namespace Attempt

variable {α β : Type} {count bytes : Nat} {x y : α}

/-- The same computation with its end put through a function. -/
def map (f : α → β) : Attempt α → Attempt β
  | brokenOff => brokenOff
  | ended x => ended (f x)

/-- A computation that reserves room before anything else. -/
@[macro_inline]
def reserving (count bytes : Nat) (x : α) : Attempt α :=
  if Reservable count bytes then .ended x else .brokenOff

theorem reserving_eq_ended_iff :
    reserving count bytes x = .ended y ↔ Reservable count bytes ∧ x = y := by
  unfold reserving
  split <;> simp_all

theorem reserving_eq_brokenOff_iff :
    reserving count bytes x = .brokenOff ↔ ¬ Reservable count bytes := by
  unfold reserving
  split <;> simp_all

end Attempt

end SeriesTable
