/-
  Instants: an instant is an integer, the nanoseconds since the start of 1970 in UTC.
  Sixty-four bits store it, so it lies from `-2^63` to below `2^63`; what does not fit is named
  here and refused where it could arise.
-/

namespace SeriesTable

namespace Instant

/-- The first storable instant, `-2^63`. -/
def least : Int := -9223372036854775808

/-- The last storable instant, `2^63 - 1`. -/
def greatest : Int := 9223372036854775807

/-- The instants that sixty-four bits store. -/
def Storable (t : Int) : Prop := least ≤ t ∧ t ≤ greatest

instance (t : Int) : Decidable (Storable t) := inferInstanceAs (Decidable (_ ∧ _))

/-- The storable number nearest to `t`. -/
def clamp (t : Int) : Int := max least (min greatest t)

/-- Each instant is less than all that follow it. -/
def Increasing (ts : List Int) : Prop := ts.Pairwise (· < ·)

instance (ts : List Int) : Decidable (Increasing ts) :=
  inferInstanceAs (Decidable (List.Pairwise _ _))

/-- The first neighbouring pair that does not increase. -/
def firstDescent? : List Int → Option (Int × Int)
  | a :: b :: rest => if a ≥ b then some (a, b) else firstDescent? (b :: rest)
  | _ => none

theorem firstDescent?_eq_none_iff {ts : List Int} :
    firstDescent? ts = none ↔ Increasing ts := by
  induction ts with
  | nil => simp [firstDescent?, Increasing]
  | cons a rest ih =>
    cases rest with
    | nil => simp [firstDescent?, Increasing]
    | cons b rest =>
      unfold firstDescent?
      by_cases h : a ≥ b
      · simp only [h, if_true, reduceCtorEq, false_iff]
        intro hp
        have := List.rel_of_pairwise_cons hp (List.mem_cons_self ..)
        omega
      · simp only [h, if_false, ih]
        constructor
        · intro hp
          refine List.Pairwise.cons ?_ hp
          intro c hc
          rcases List.mem_cons.mp hc with rfl | hc
          · omega
          · have := List.rel_of_pairwise_cons hp hc
            omega
        · intro hp; exact hp.of_cons

end Instant

end SeriesTable
