import SeriesTable.Decimal.Shortest

/-
  How a binary number is written out in decimal: the decisions of a layout in one record, and the
  text that follows from them.
-/

namespace SeriesTable.Decimal

/-- The decisions of a decimal layout. -/
structure Layout where
  /-- Leading exponents that are written positionally; all of them if there are no bounds. -/
  positional : Option (Int × Int)
  /-- A whole number keeps a zero after the point. -/
  pointZero : Bool
  tie : Tie
  notANumber : String
  infinity : String
  negativeInfinity : String
  deriving Repr

namespace Layout

/-- A decimal with this leading exponent is written positionally. -/
def isPositional (l : Layout) (leading : Int) : Bool :=
  match l.positional with
  | none => true
  | some (least, greatest) => least ≤ leading ∧ leading ≤ greatest

/-- So many zeros in a row. -/
def zeros (n : Nat) : String := String.ofList (List.replicate n '0')

/-- A decimal written without exponent. -/
def plain (l : Layout) (d : Decimal) : String :=
  let digits := Nat.toDigits 10 d.digits
  let whole := digits.length + d.exponent
  if 0 ≤ d.exponent then
    String.ofList digits ++ zeros d.exponent.toNat ++ (if l.pointZero then ".0" else "")
  else if 0 < whole then
    String.ofList (digits.take whole.toNat) ++ "." ++ String.ofList (digits.drop whole.toNat)
  else "0." ++ zeros (-whole).toNat ++ String.ofList digits

/-- A decimal written with one digit before the point and a signed exponent. -/
def scientific (d : Decimal) (leading : Int) : String :=
  let digits := Nat.toDigits 10 d.digits
  let mantissa :=
    match digits with
    | [] => ""
    | [c] => String.ofList [c]
    | c :: rest => String.ofList (c :: '.' :: rest)
  mantissa ++ "e" ++ (if 0 ≤ leading then "+" else "-") ++ toString leading.natAbs

/-- A finite number without its sign, by its shortest decimal. -/
def magnitude (l : Layout) (f : Binary.Format) (significand : Nat) (exponent : Int) : String :=
  if significand = 0 then (if l.pointZero then "0.0" else "0")
  else
    let d := shortest (Window.ofFinite f significand exponent) l.tie
    let leading := (Nat.toDigits 10 d.digits).length - 1 + d.exponent
    if l.isPositional leading then l.plain d else scientific d leading

/-- The text of a word. -/
def write (l : Layout) (f : Binary.Format) (word : Nat) : String :=
  match Binary.decode f word with
  | .notANumber => l.notANumber
  | .infinity negative => if negative then l.negativeInfinity else l.infinity
  | .finite negative significand exponent =>
    (if negative then "-" else "") ++ l.magnitude f significand exponent

end Layout

end SeriesTable.Decimal
