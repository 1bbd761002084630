import SeriesTable.Toml.Table
import SeriesTable.Instant
import SeriesTable.Binary.Format

/-
  TOML values without quotes and brackets: truth values, integers in four bases, numbers with a
  point or an exponent, dates and times.
-/

namespace SeriesTable.Toml

/-- Digits without the underscores that may stand between any two of them. -/
def ungroup? (digit : Char → Bool) : List Char → Option (List Char)
  | [] => none
  | [c] => if digit c then some [c] else none
  | c :: '_' :: rest => if digit c then (ungroup? digit rest).map (c :: ·) else none
  | c :: rest => if digit c then (ungroup? digit rest).map (c :: ·) else none

/-- The value of a digit, which may be a letter. -/
def digitValue (c : Char) : Nat :=
  if c.isDigit then c.toNat - '0'.toNat
  else if c.isLower then c.toNat - 'a'.toNat + 10
  else c.toNat - 'A'.toNat + 10

/-- The character is a digit of a base. -/
def isDigitOf (base : Nat) (c : Char) : Bool := c.isAlphanum && digitValue c < base

/-- The number that digits of a base denote. -/
def numberOf (base : Nat) (digits : List Char) : Nat :=
  digits.foldl (fun n c => n * base + digitValue c) 0

/-- An integer, if it is storable. -/
def storable? (n : Int) : Option Toml := if Instant.Storable n then some (.integer n) else none

/-- A sign, if there is one, and what follows it. -/
def signed (s : List Char) : Bool × List Char :=
  match s with
  | '+' :: rest => (false, rest)
  | '-' :: rest => (true, rest)
  | _ => (false, s)

/-- Decimal digits that do not start with a needless zero. -/
def whole? (s : List Char) : Option (List Char) := do
  let digits ← ungroup? Char.isDigit s
  if digits.head? = some '0' ∧ 1 < digits.length then none else some digits

/-- An integer; only a decimal one may have a sign. -/
def integer? (s : List Char) : Option Toml :=
  match s with
  | '0' :: 'x' :: rest => do storable? (numberOf 16 (← ungroup? (isDigitOf 16) rest))
  | '0' :: 'o' :: rest => do storable? (numberOf 8 (← ungroup? (isDigitOf 8) rest))
  | '0' :: 'b' :: rest => do storable? (numberOf 2 (← ungroup? (isDigitOf 2) rest))
  | _ => do
    let (negative, s) := signed s
    let magnitude : Int := numberOf 10 (← whole? s)
    storable? (if negative then -magnitude else magnitude)

/-- Decimal exponents beyond these bounds need no arithmetic. -/
def exponentBound : Int := 400

/-- The decimal `digits * 10 ^ exponent` is within the range of double precision. -/
def isFinite (digits : List Char) (exponent : Int) : Bool :=
  let n := numberOf 10 digits
  if n = 0 then true
  else
    let leading := exponent + (Nat.toDigits 10 n).length
    if leading > exponentBound then false
    else if leading < -exponentBound then true
    else
      Binary.nearest .double (n * Binary.raise 10 exponent) (Binary.raise 10 (-exponent))
        < Binary.Format.double.infinityWord

/-- A number with a fraction, an exponent or both. A positive one must be within the range of
double precision. -/
def float? (s : List Char) : Option Toml := do
  let (negative, s) := signed s
  if s = "inf".toList ∨ s = "nan".toList then return .float
  let (mantissa, power) := s.span fun c => c ≠ 'e' ∧ c ≠ 'E'
  let (whole, fraction) := mantissa.span fun c => c ≠ '.'
  let whole ← whole? whole
  let places ← match fraction with
    | [] => some []
    | _ :: fraction => ungroup? Char.isDigit fraction
  let exponent : Int ← match power with
    | [] => if fraction = [] then none else some 0
    | _ :: power => do
      let (below, power) := signed power
      let magnitude : Int := numberOf 10 (← ungroup? Char.isDigit power)
      some (if below then -magnitude else magnitude)
  if negative || isFinite (whole ++ places) (exponent - places.length) then some .float else none

/-! ## Dates and times -/

/-- A number of exactly two digits within bounds, and what follows it. -/
def twoDigits? (least most : Nat) (s : List Char) : Option (Nat × List Char) :=
  match s with
  | a :: b :: rest =>
    if a.isDigit && b.isDigit then
      let n := numberOf 10 [a, b]
      if least ≤ n ∧ n ≤ most then some (n, rest) else none
    else none
  | _ => none

/-- The rest after one character. -/
def after? (c : Char) (s : List Char) : Option (List Char) :=
  match s with
  | d :: rest => if d = c then some rest else none
  | [] => none

/-- The days of a month. -/
def monthLength (year month : Nat) : Nat :=
  match month with
  | 2 => if year % 4 = 0 ∧ (year % 100 ≠ 0 ∨ year % 400 = 0) then 29 else 28
  | 4 | 6 | 9 | 11 => 30
  | _ => 31

/-- The rest after a date. -/
def date? (s : List Char) : Option (List Char) := do
  let (century, s) ← twoDigits? 0 99 s
  let (year, s) ← twoDigits? 0 99 s
  let (month, s) ← twoDigits? 1 12 (← after? '-' s)
  let (_, s) ← twoDigits? 1 (monthLength (century * 100 + year) month) (← after? '-' s)
  return s

/-- The rest after a time of day. -/
def time? (s : List Char) : Option (List Char) := do
  let (_, s) ← twoDigits? 0 23 s
  let (_, s) ← twoDigits? 0 59 (← after? ':' s)
  let (_, s) ← twoDigits? 0 60 (← after? ':' s)
  match s with
  | '.' :: rest =>
    let (fraction, rest) := rest.span Char.isDigit
    if fraction = [] then none else some rest
  | _ => some s

/-- An offset from universal time, or nothing. -/
def isOffset (s : List Char) : Bool :=
  match s with
  | [] | ['Z'] | ['z'] => true
  | '+' :: s | '-' :: s =>
    match (twoDigits? 0 23 s).bind fun (_, s) => (after? ':' s).bind (twoDigits? 0 59) with
    | some (_, []) => true
    | _ => false
  | _ => false

/-- A time of day with or without an offset. -/
def isClockTime (s : List Char) : Bool :=
  match time? s with
  | some rest => isOffset rest
  | none => false

/-- A date, a date with a time, or a time. -/
def moment? (s : List Char) : Option Toml :=
  match date? s with
  | some [] => some .moment
  | some (c :: rest) => if (c = 'T' ∨ c = 't') && isClockTime rest then some .moment else none
  | none =>
    match time? s with
    | some [] => some .moment
    | _ => none

/-- The value of a word. -/
def scalar? (s : List Char) : Option Toml :=
  if s = "true".toList then some (.bool true)
  else if s = "false".toList then some (.bool false)
  else (moment? s).or ((float? s).or (integer? s))

end SeriesTable.Toml
