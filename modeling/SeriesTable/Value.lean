import SeriesTable.Binary.Format

/-
  Sample values and their kinds. A floating-point value is kept as its word, so equality of
  values is equality of what was stored.
-/

namespace SeriesTable

/-- The kind of the values of a source. The last three are known, but no column holds them. -/
inductive Kind where
  | bool
  | int
  | long
  | float
  | double
  | string
  | timestamp
  | array
  | record
  | image
  deriving DecidableEq, Repr

namespace Kind

def all : List Kind :=
  [.bool, .int, .long, .float, .double, .string, .timestamp, .array, .record, .image]

/-- The name that documents use. -/
def name : Kind → String
  | bool => "bool"
  | int => "int"
  | long => "long"
  | float => "float"
  | double => "double"
  | string => "string"
  | timestamp => "timestamp"
  | array => "array"
  | record => "structure"
  | image => "image"

/-- The kind of a name that documents use. -/
def ofName? (s : String) : Option Kind := all.find? fun k => k.name = s

/-- The name that messages use. -/
def title : Kind → String
  | bool => "BOOL"
  | int => "INT"
  | long => "LONG"
  | float => "FLOAT"
  | double => "DOUBLE"
  | string => "STRING"
  | timestamp => "TIMESTAMP"
  | array => "ARRAY"
  | record => "STRUCTURE"
  | image => "IMAGE"

/-- Columns can hold values of the kind. -/
def Supported : Kind → Prop
  | array | record | image => False
  | _ => True

instance : DecidablePred Supported := fun k => by
  cases k <;> unfold Supported <;> infer_instance

/-- Bytes that one encoded value is counted with. -/
def size : Kind → Nat
  | bool => 1
  | int | float => 4
  | long | double | timestamp => 8
  | string => 24
  | array | record | image => 0

end Kind

/-- One sample. -/
inductive Value where
  | null
  | bool (b : Bool)
  | int (n : Int)
  | long (n : Int)
  | float (word : Nat)
  | double (word : Nat)
  | string (s : String)
  | timestamp (t : Int)
  deriving DecidableEq, Repr

namespace Value

/-- The kind of a sample; a missing one has none. -/
def kind? : Value → Option Kind
  | null => none
  | bool _ => some .bool
  | int _ => some .int
  | long _ => some .long
  | float _ => some .float
  | double _ => some .double
  | string _ => some .string
  | timestamp _ => some .timestamp

/-- The sample is missing. -/
def isNull : Value → Bool
  | null => true
  | _ => false

/-- The sample may stand among values of kind `k`: it is missing or of that kind. -/
def Fits (v : Value) (k : Kind) : Prop := ∀ l, v.kind? = some l → l = k

instance (v : Value) (k : Kind) : Decidable (v.Fits k) :=
  match h : v.kind? with
  | none => .isTrue (by simp [Fits, h])
  | some l => if e : l = k then .isTrue (by simp [Fits, h, e]) else .isFalse (by simp [Fits, h, e])

/-- The sample as a double-precision word, if it is a number; `some none` is not a number. -/
def number? : Value → Option (Option Nat)
  | int n | long n | timestamp n => some (some (Binary.ofInt .double n))
  | float word => some (Binary.convert? .single .double word)
  | double word => some (Binary.convert? .double .double word)
  | null | bool _ | string _ => none

end Value

end SeriesTable
