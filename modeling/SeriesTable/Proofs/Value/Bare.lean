import SeriesTable.Value.Text
import SeriesTable.Proofs.Csv.RoundTrip

/-
  Which texts need no quotes. Digits, signs, points and the letters of a calendar text are all
  bare, and so is what is put together from them: of the values only strings can need quotes.
-/

namespace SeriesTable

namespace Csv

@[simp] theorem bare_nil : Bare [] := List.forall_mem_nil _

@[simp] theorem bare_cons {c : Char} {s : List Char} :
    Bare (c :: s) ↔ ¬ NeedsQuotes c ∧ Bare s := List.forall_mem_cons

@[simp] theorem bare_append {s t : List Char} : Bare (s ++ t) ↔ Bare s ∧ Bare t :=
  List.forall_mem_append

theorem Bare.sublist {s t : List Char} (h : Bare t) (hs : List.Sublist s t) : Bare s :=
  fun c hc => h c (hs.subset hc)

theorem bare_replicate {c : Char} (h : ¬ NeedsQuotes c) (n : Nat) : Bare (List.replicate n c) := by
  intro d hd
  rwa [List.eq_of_mem_replicate hd]

theorem not_needsQuotes_of_isDigit {c : Char} (h : c.isDigit) : ¬ NeedsQuotes c := by
  rintro (rfl | rfl | rfl) <;> exact absurd h (by decide)

theorem bare_toDigits (n : Nat) : Bare (Nat.toDigits 10 n) := fun _ hc =>
  not_needsQuotes_of_isDigit (Nat.isDigit_of_mem_toDigits (by decide) (by decide) hc)

@[simp] theorem bare_nat (n : Nat) : Bare (toString n).toList := by
  rw [Nat.toString_eq_ofList_toDigits, String.toList_ofList]
  exact bare_toDigits n

@[simp] theorem bare_int (n : Int) : Bare (toString n).toList := by
  rw [Int.toString_eq_repr, Int.repr_eq_if]
  split
  · exact bare_nat _
  · rw [String.toList_append, bare_append]
    exact ⟨by decide, bare_nat _⟩

end Csv

open Csv (Bare)

namespace Decimal.Layout

theorem bare_zeros (n : Nat) : Bare (zeros n).toList := by
  rw [zeros, String.toList_ofList]
  exact Csv.bare_replicate (by decide) n

theorem bare_plain (l : Layout) (d : Decimal) : Bare (l.plain d).toList := by
  have hdigits := Csv.bare_toDigits d.digits
  simp only [plain]
  split
  · have hpoint : Bare (if l.pointZero then ".0" else "").toList := by split <;> decide
    simp [bare_zeros, hdigits, hpoint]
  · split
    · have hbefore (n : Nat) := hdigits.sublist (List.take_sublist n _)
      have hafter (n : Nat) := hdigits.sublist (List.drop_sublist n _)
      simp [hbefore, hafter, Csv.NeedsQuotes]
    · simp [bare_zeros, hdigits, Csv.NeedsQuotes]

/-- A layout without exponents and with bare names writes bare texts. -/
theorem bare_write {l : Layout} (hpositional : l.positional = none)
    (hnan : Bare l.notANumber.toList) (hinf : Bare l.infinity.toList)
    (hneg : Bare l.negativeInfinity.toList) (f : Binary.Format) (word : Nat) :
    Bare (l.write f word).toList := by
  have hmagnitude (significand : Nat) (exponent : Int) :
      Bare (l.magnitude f significand exponent).toList := by
    unfold magnitude
    split
    · split <;> decide
    · simp [isPositional, hpositional, bare_plain]
  unfold write
  cases Binary.decode f word with
  | notANumber => exact hnan
  | infinity negative => cases negative <;> assumption
  | finite negative significand exponent =>
    have hsign : Bare (if negative then "-" else "").toList := by cases negative <;> decide
    rw [String.toList_append, Csv.bare_append]
    exact ⟨hsign, hmagnitude significand exponent⟩

end Decimal.Layout

namespace Instant

theorem bare_padded (width n : Nat) : Bare (padded width n).toList := by
  simp only [padded, String.toList_append, String.toList_ofList, Csv.bare_append]
  exact ⟨Csv.bare_replicate (by decide) _, Csv.bare_nat n⟩

theorem bare_fractionText (nanos : Nat) : Bare (fractionText nanos).toList := by
  unfold fractionText
  split
  · decide
  · split
    · simp [bare_padded, Csv.NeedsQuotes]
    · split <;> simp [bare_padded, Csv.NeedsQuotes]

theorem bare_text (t : Int) : Bare (text t).toList := by
  simp [text, bare_padded, bare_fractionText, Csv.NeedsQuotes]

end Instant

namespace Value

theorem bare_readable (f : Binary.Format) (word : Nat) : Bare (readable.write f word).toList :=
  Decimal.Layout.bare_write rfl (by decide) (by decide) (by decide) f word

/-- The text of a value that is no string needs no quotes. -/
theorem bare_text {v : Value} (h : ∀ s, v ≠ .string s) : Bare v.text.toList := by
  cases v with
  | null => decide
  | bool b => cases b <;> decide
  | int n => exact Csv.bare_int n
  | long n => exact Csv.bare_int n
  | float word => exact bare_readable .single word
  | double word => exact bare_readable .double word
  | string s => exact absurd rfl (h s)
  | timestamp t => exact Instant.bare_text t

end Value

end SeriesTable
