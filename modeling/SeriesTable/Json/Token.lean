import SeriesTable.Instant

/-
  The tokens of JSON text, read in one pass over its characters.
-/

namespace SeriesTable.Json

/-- A token. A string with half of a surrogate pair in it has no content. -/
inductive Token where
  | openArray
  | closeArray
  | openObject
  | closeObject
  | comma
  | colon
  | null
  | bool (b : Bool)
  | number (text : List Char)
  | string (content : Option String)
  deriving DecidableEq, Repr

/-- A character of a string that stands for itself, or a sixteen-bit unit given by its number. -/
inductive Piece where
  | plain (c : Char)
  | unit (n : Nat)
  deriving DecidableEq, Repr

namespace Piece

/-- The first unit of a surrogate pair. -/
def isLead (n : Nat) : Bool := 0xD800 ≤ n ∧ n < 0xDC00

/-- The second unit of a surrogate pair. -/
def isTrail (n : Nat) : Bool := 0xDC00 ≤ n ∧ n < 0xE000

/-- The character that a surrogate pair stands for. -/
def paired (lead trail : Nat) : Char :=
  Char.ofNat (0x10000 + (lead - 0xD800) * 0x400 + (trail - 0xDC00))

/-- The characters of some pieces. -/
def text? : List Piece → Option (List Char)
  | [] => some []
  | plain c :: rest => (text? rest).map (c :: ·)
  | unit n :: rest =>
    if isLead n then
      match rest with
      | unit m :: rest => if isTrail m then (text? rest).map (paired n m :: ·) else none
      | _ => none
    else if isTrail n then none
    else (text? rest).map (Char.ofNat n :: ·)

end Piece

/-- At least one digit and nothing else. -/
def isDigits (s : List Char) : Bool := !s.isEmpty && s.all Char.isDigit

/-- What may follow a number's whole part: a fraction, an exponent, both or neither. -/
def isNumberTail (s : List Char) : Bool :=
  let (fraction, exponent) := s.span fun c => c ≠ 'e' ∧ c ≠ 'E'
  let fractionOk :=
    match fraction with
    | [] => true
    | c :: rest => c = '.' && isDigits rest
  let exponentOk :=
    match exponent with
    | [] => true
    | _ :: '+' :: rest | _ :: '-' :: rest | _ :: rest => isDigits rest
  fractionOk && exponentOk

/-- The text is a number: no zero before other digits, and digits around every point. -/
def isNumber (s : List Char) : Bool :=
  let s := match s with
    | '-' :: rest => rest
    | _ => s
  let (whole, tail) := s.span Char.isDigit
  isDigits whole && (whole.head? ≠ some '0' || whole.length = 1) && isNumberTail tail

/-- The value of a number's text if it is a storable integer written without fraction and
exponent; a negative zero is none. -/
def integer? (text : List Char) : Option Int :=
  let (sign, digits) : Int × List Char := match text with
    | '-' :: rest => (-1, rest)
    | _ => (1, text)
  let magnitude : Int := Nat.ofDigitChars 10 digits 0
  if !isDigits digits || (sign < 0 && magnitude = 0) then none
  else if Instant.Storable (sign * magnitude) then some (sign * magnitude)
  else none

/-! ## The pass over the characters -/

/-- What the pass is in the middle of. What was read of it is kept in reverse. -/
inductive Lexer.Mode where
  | between
  | number (text : List Char)
  | word (text : List Char)
  | string (pieces : List Piece)
  | escape (pieces : List Piece)
  | unit (pieces : List Piece) (digits value : Nat)
  deriving DecidableEq, Repr

/-- The tokens so far, in reverse. -/
structure Lexer where
  tokens : List Token
  mode : Lexer.Mode
  deriving DecidableEq, Repr

namespace Lexer

/-- A lexer that has seen nothing. -/
def start : Lexer := ⟨[], .between⟩

/-- The lexer after a whole token. -/
def push (l : Lexer) (t : Token) : Lexer := ⟨t :: l.tokens, .between⟩

/-- The numeral or the word that is being read has ended. -/
def close (l : Lexer) : Option Lexer :=
  match l.mode with
  | .between => some l
  | .number text => if isNumber text.reverse then some (l.push (.number text.reverse)) else none
  | .word text =>
    match String.ofList text.reverse with
    | "null" => some (l.push .null)
    | "true" => some (l.push (.bool true))
    | "false" => some (l.push (.bool false))
    | _ => none
  | .string _ | .escape _ | .unit .. => none

/-- A character outside numbers, words and strings. -/
def open? (l : Lexer) (c : Char) : Option Lexer :=
  if c = ' ' ∨ c = '\t' ∨ c = '\n' ∨ c = '\r' then some l
  else if c.isDigit ∨ c = '-' then some { l with mode := .number [c] }
  else if c.isLower then some { l with mode := .word [c] }
  else
    match c with
    | '[' => some (l.push .openArray)
    | ']' => some (l.push .closeArray)
    | '\x7b' => some (l.push .openObject)
    | '\x7d' => some (l.push .closeObject)
    | ',' => some (l.push .comma)
    | ':' => some (l.push .colon)
    | '"' => some { l with mode := .string [] }
    | _ => none

/-- The character that stands after a backslash for another one. -/
def escaped? : Char → Option Char
  | '"' => some '"'
  | '\\' => some '\\'
  | '/' => some '/'
  | 'b' => some '\x08'
  | 'f' => some '\x0c'
  | 'n' => some '\n'
  | 'r' => some '\r'
  | 't' => some '\t'
  | _ => none

/-- The value of a hexadecimal digit. -/
def hexValue? (c : Char) : Option Nat :=
  if c.isDigit then some (c.toNat - '0'.toNat)
  else if 'a' ≤ c ∧ c ≤ 'f' then some (c.toNat - 'a'.toNat + 10)
  else if 'A' ≤ c ∧ c ≤ 'F' then some (c.toNat - 'A'.toNat + 10)
  else none

/-- The token of a string, without content if a piece has none. -/
def stringToken (pieces : List Piece) : Token :=
  .string ((Piece.text? pieces.reverse).map String.ofList)

/-- One more character. -/
def step (l : Lexer) (c : Char) : Option Lexer :=
  match l.mode with
  | .between => l.open? c
  | .number text =>
    if c.isDigit ∨ c ∈ ['+', '-', '.', 'e', 'E'] then some { l with mode := .number (c :: text) }
    else l.close.bind (·.open? c)
  | .word text =>
    if c.isLower then some { l with mode := .word (c :: text) }
    else l.close.bind (·.open? c)
  | .string pieces =>
    if c = '"' then some (l.push (stringToken pieces))
    else if c = '\\' then some { l with mode := .escape pieces }
    else if c.toNat < 32 then none
    else some { l with mode := .string (.plain c :: pieces) }
  | .escape pieces =>
    if c = 'u' then some { l with mode := .unit pieces 0 0 }
    else (escaped? c).map fun e => { l with mode := .string (.plain e :: pieces) }
  | .unit pieces digits value => do
    let value := value * 16 + (← hexValue? c)
    if digits = 3 then some { l with mode := .string (.unit value :: pieces) }
    else some { l with mode := .unit pieces (digits + 1) value }

end Lexer

/-- The tokens of a text. -/
def tokens? (s : String) : Option (List Token) := do
  let l ← (← s.toList.foldlM Lexer.step Lexer.start).close
  return l.tokens.reverse

end SeriesTable.Json
