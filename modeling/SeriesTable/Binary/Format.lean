/-
  Binary floating-point words (IEEE 754): what a word denotes, and the word nearest to a
  quotient of natural numbers. Everything is exact arithmetic on natural numbers; a word is its
  bit pattern read as a number.
-/

namespace SeriesTable.Binary

/-- `base` to the power of `e`, and one if `e` is negative: the positive part of a power. -/
def raise (base : Nat) (e : Int) : Nat := Nat.pow base e.toNat

/-- A binary interchange format. -/
structure Format where
  /-- Digits of the significand, the hidden one included. -/
  precision : Nat
  exponentBits : Nat
  deriving DecidableEq, Repr

/-- Single precision, in thirty-two bits. -/
def Format.single : Format := ⟨24, 8⟩

/-- Double precision, in sixty-four bits. -/
def Format.double : Format := ⟨53, 11⟩

namespace Format

/-- Bits of the fraction, which leaves the hidden digit out. -/
def fractionBits (f : Format) : Nat := f.precision - 1

/-- The exponent field of infinities and of what is not a number. -/
def specialField (f : Format) : Nat := Nat.pow 2 f.exponentBits - 1

/-- The exponent of the last digit of the smallest numbers. -/
def leastExponent (f : Format) : Int := 3 - Nat.pow 2 (f.exponentBits - 1) - f.precision

/-- The word with only the sign set. -/
def signWord (f : Format) : Nat := Nat.pow 2 (f.exponentBits + f.fractionBits)

/-- The word of the positive infinity. -/
def infinityWord (f : Format) : Nat := f.specialField * Nat.pow 2 f.fractionBits

end Format

/-- What a word denotes. A finite word stands for `significand * 2 ^ exponent`. -/
inductive Datum where
  | notANumber
  | infinity (negative : Bool)
  | finite (negative : Bool) (significand : Nat) (exponent : Int)
  deriving DecidableEq, Repr

/-- The sign of a word is set. -/
def isNegative (f : Format) (word : Nat) : Bool := word / f.signWord % 2 = 1

/-- The bits of the exponent, as a number. -/
def exponentField (f : Format) (word : Nat) : Nat :=
  word / Nat.pow 2 f.fractionBits % Nat.pow 2 f.exponentBits

/-- The bits of the fraction, as a number. -/
def fraction (f : Format) (word : Nat) : Nat := word % Nat.pow 2 f.fractionBits

/-- What a word denotes. With a zero exponent field there is no hidden digit. -/
def decode (f : Format) (word : Nat) : Datum :=
  let negative := isNegative f word
  let field := exponentField f word
  let fraction := fraction f word
  if field = f.specialField then
    if fraction = 0 then .infinity negative else .notANumber
  else if field = 0 then .finite negative fraction f.leastExponent
  else .finite negative (Nat.pow 2 f.fractionBits + fraction) (f.leastExponent + (field - 1))

/-- The quotient to the nearest integer, and to the even one of two equally near. -/
def roundHalfEven (num den : Nat) : Nat :=
  let low := num / den
  let rest := num % den
  if 2 * rest < den then low
  else if den < 2 * rest then low + 1
  else if low % 2 = 0 then low else low + 1

/-- The largest `k` with `2 ^ k ≤ num / den`, for positive `num` and `den`. -/
def quotientLog (num den : Nat) : Int :=
  let estimate : Int := num.log2 - den.log2
  if den * raise 2 estimate ≤ num * raise 2 (-estimate) then estimate else estimate - 1

/-- The positive word nearest to `num / den`, and the even one of two equally near; the infinite
word if the quotient is too large for a finite one. -/
def nearest (f : Format) (num den : Nat) : Nat :=
  if num = 0 then 0
  else
    let exponent := max f.leastExponent (quotientLog num den - f.fractionBits)
    let significand := roundHalfEven (num * raise 2 (-exponent)) (den * raise 2 exponent)
    min f.infinityWord ((exponent - f.leastExponent).toNat * Nat.pow 2 f.fractionBits + significand)

/-- The word of an integer. -/
def ofInt (f : Format) (n : Int) : Nat :=
  nearest f n.natAbs 1 + (if n < 0 then f.signWord else 0)

/-- The same number in another format; `none` if it is not a number. -/
def convert? (source target : Format) (word : Nat) : Option Nat :=
  let signed (negative : Bool) (magnitude : Nat) : Nat :=
    magnitude + (if negative then target.signWord else 0)
  match decode source word with
  | .notANumber => none
  | .infinity negative => some (signed negative target.infinityWord)
  | .finite negative significand exponent =>
    some (signed negative
      (nearest target (significand * raise 2 exponent) (raise 2 (-exponent))))

/-- The quotient of two counts, each first brought to the format; zero over anything is zero. -/
def ratio (f : Format) (num den : Nat) : Nat :=
  match decode f (nearest f num 1), decode f (nearest f den 1) with
  | .finite _ m i, .finite _ n j =>
    if n = 0 then 0
    else nearest f (m * raise 2 (i - j)) (n * raise 2 (j - i))
  | _, _ => 0

end SeriesTable.Binary
