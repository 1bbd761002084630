import SeriesTable.Binary.Format

/-
  The decimal that stands for a binary number: of the decimals that read back to it the ones with
  the fewest digits, and of those the nearest.
-/

namespace SeriesTable

/-- The number `digits * 10 ^ exponent`. -/
structure Decimal where
  digits : Nat
  exponent : Int
  deriving DecidableEq, Repr

namespace Decimal

/-- Which of two equally near decimals is taken. -/
inductive Tie where
  | even
  | up
  deriving DecidableEq, Repr

/-- A positive number with the bounds of what reads back to it, all three over one denominator.
The bounds themselves read back if `closed`. -/
structure Window where
  low : Nat
  value : Nat
  high : Nat
  den : Nat
  closed : Bool
  deriving DecidableEq, Repr

namespace Window

/-- The window of a finite word: half a unit of the last place to either side, but only a quarter
below a power of two, where the numbers underneath lie twice as dense. -/
def ofFinite (f : Binary.Format) (significand : Nat) (exponent : Int) : Window :=
  let atPower := significand = Nat.pow 2 f.fractionBits ∧ f.leastExponent < exponent
  let up := Binary.raise 2 (exponent - 2)
  { low := (4 * significand - (if atPower then 1 else 2)) * up
    value := 4 * significand * up
    high := (4 * significand + 2) * up
    den := Binary.raise 2 (2 - exponent)
    closed := significand % 2 = 0 }

/-- `n * 10 ^ grid` compared with `bound`, a numerator over the window's denominator. -/
def compareGrid (w : Window) (grid : Int) (n bound : Nat) : Ordering :=
  compare (n * Binary.raise 10 grid * w.den) (bound * Binary.raise 10 (-grid))

/-- `n * 10 ^ grid` reads back to the window's number. -/
def holds (w : Window) (grid : Int) (n : Nat) : Bool :=
  let fromLow := w.compareGrid grid n w.low
  let fromHigh := w.compareGrid grid n w.high
  (fromLow = .gt ∨ (w.closed ∧ fromLow = .eq)) ∧ (fromHigh = .lt ∨ (w.closed ∧ fromHigh = .eq))

/-- The multiple of `10 ^ grid` at or below the window's number, in units of the grid. -/
def floorOn (w : Window) (grid : Int) : Nat :=
  w.value * Binary.raise 10 (-grid) / (w.den * Binary.raise 10 grid)

/-- Twice the window's number beside the midpoint of `n` and `n + 1` on the grid. -/
def besideMidpoint (w : Window) (grid : Int) (n : Nat) : Ordering :=
  compare (2 * w.value * Binary.raise 10 (-grid)) ((2 * n + 1) * Binary.raise 10 grid * w.den)

/-- Of the two neighbours of the window's number on a grid the one that reads back, and the nearer
one if both do. -/
def onGrid? (w : Window) (tie : Tie) (grid : Int) : Option Decimal :=
  let below := w.floorOn grid
  match w.holds grid below, w.holds grid (below + 1) with
  | false, false => none
  | true, false => some ⟨below, grid⟩
  | false, true => some ⟨below + 1, grid⟩
  | true, true =>
    match w.besideMidpoint grid below with
    | .lt => some ⟨below, grid⟩
    | .gt => some ⟨below + 1, grid⟩
    | .eq => if tie = .even ∧ below % 2 = 0 then some ⟨below, grid⟩ else some ⟨below + 1, grid⟩

/-- The exponent of the leading decimal digit of the window's number. -/
def leadingExponent (w : Window) : Int :=
  let digits (n : Nat) : Int := (Nat.toDigits 10 n).length - 1
  if w.den ≤ w.value then digits (w.value / w.den)
  else
    let below := digits (w.den / w.value)
    if w.den ≤ w.value * Binary.raise 10 below then -below else -below - 1

end Window

/-- The digits without zeros at the end. -/
def trim (d : Decimal) : Decimal := go (Nat.toDigits 10 d.digits).length d
where
  go : Nat → Decimal → Decimal
    | 0, d => d
    | fuel + 1, d =>
      if d.digits ≠ 0 ∧ d.digits % 10 = 0 then go fuel ⟨d.digits / 10, d.exponent + 1⟩ else d

/-- The number of digits of the two formats here never exceeds this. -/
def mostDigits : Nat := 17

/-- The fewest digits that read back: the grids are tried from the one of the leading digit to
finer ones, and the last one always has a neighbour that reads back. -/
def shortest (w : Window) (tie : Tie) : Decimal :=
  let leading := w.leadingExponent
  let finest := leading - (mostDigits - 1)
  let found := (List.range mostDigits).findSome? fun (more : Nat) => w.onGrid? tie (leading - more)
  (found.getD ⟨w.floorOn finest, finest⟩).trim

end Decimal

end SeriesTable
