import SeriesTable.Value
import SeriesTable.Instant.Calendar
import SeriesTable.Decimal.Layout
import SeriesTable.Json.Text

/-
  The two texts of a sample: the one for readers, used in messages and tables, and the JSON one.
-/

namespace SeriesTable.Value

/-- Numbers for readers: always positional, whole numbers without a point, ties upwards. -/
def readable : Decimal.Layout where
  positional := none
  pointZero := false
  tie := .up
  notANumber := "NaN"
  infinity := "inf"
  negativeInfinity := "-inf"

/-- Numbers in JSON: whole numbers keep `.0`, ties go to the even digit, and what is not finite
is `null`. Double precision is positional from `10^-5` to below `10^16`, single precision from
`10^-6` to below `10^13`. -/
def jsonNumber (f : Binary.Format) : Decimal.Layout where
  positional := some (if f = .single then (-6, 12) else (-5, 15))
  pointZero := true
  tie := .even
  notANumber := "null"
  infinity := "null"
  negativeInfinity := "null"

/-- A truth value in small letters. -/
def boolText (b : Bool) : String := if b then "true" else "false"

/-- The text for readers. -/
def text : Value → String
  | null => "null"
  | bool b => boolText b
  | int n | long n => toString n
  | float word => readable.write .single word
  | double word => readable.write .double word
  | string s => s
  | timestamp t => Instant.text t

/-- The JSON text. -/
def json : Value → String
  | null => "null"
  | bool b => boolText b
  | int n | long n | timestamp n => toString n
  | float word => (jsonNumber .single).write .single word
  | double word => (jsonNumber .double).write .double word
  | string s => Json.quote s

end SeriesTable.Value
