/-
  TOML strings: in double quotes, with escapes, or in single quotes, without; each on one line or,
  between three quotes, over several. Every function gives the content and what follows the
  closing quotes.
-/

namespace SeriesTable.Toml

/-- The character may stand in a string. -/
def isPrintable (c : Char) : Bool := c = '\t' ∨ (32 ≤ c.toNat ∧ c.toNat ≠ 127)

/-- The character is a space or a tab. -/
def isBlank (c : Char) : Bool := c = ' ' ∨ c = '\t'

/-- The value of a hexadecimal digit. -/
def hexDigit? (c : Char) : Option Nat :=
  if c.isDigit then some (c.toNat - '0'.toNat)
  else if 'a' ≤ c ∧ c ≤ 'f' then some (c.toNat - 'a'.toNat + 10)
  else if 'A' ≤ c ∧ c ≤ 'F' then some (c.toNat - 'A'.toNat + 10)
  else none

/-- The character of a code, which must not be half of a surrogate pair. -/
def coded? (digits : List Char) : Option Char := do
  let n := (← digits.mapM hexDigit?).foldl (fun n d => n * 16 + d) 0
  if n < 0xD800 ∨ (0xDFFF < n ∧ n < 0x110000) then some (Char.ofNat n) else none

/-- The character that stands after a backslash for another one. -/
def escaped? : Char → Option Char
  | 'b' => some '\x08'
  | 't' => some '\t'
  | 'n' => some '\n'
  | 'f' => some '\x0c'
  | 'r' => some '\r'
  | '"' => some '"'
  | '\\' => some '\\'
  | _ => none

/-- The content of a string and what follows it. -/
abbrev Scanned := Option (List Char × List Char)

/-- The scan of what follows, with a character before its content. -/
def Scanned.cons (c : Option Char) (s : Scanned) : Scanned := do
  let (content, rest) ← s
  return ((← c) :: content, rest)

/-- After an opening double quote. -/
def basic : List Char → Scanned
  | [] => none
  | '"' :: rest => some ([], rest)
  | '\\' :: 'u' :: a :: b :: c :: d :: rest => (basic rest).cons (coded? [a, b, c, d])
  | '\\' :: 'U' :: a :: b :: c :: d :: e :: f :: g :: h :: rest =>
    (basic rest).cons (coded? [a, b, c, d, e, f, g, h])
  | '\\' :: c :: rest => (basic rest).cons (escaped? c)
  | c :: rest => if isPrintable c ∧ c ≠ '\\' then (basic rest).cons (some c) else none

/-- After an opening single quote. -/
def literal : List Char → Scanned
  | [] => none
  | '\'' :: rest => some ([], rest)
  | c :: rest => if isPrintable c then (literal rest).cons (some c) else none

/-- Three quotes end a string; of one or two more before them the content ends with. -/
def closing (quote : Char) (rest : List Char) : List Char × List Char :=
  match rest with
  | a :: b :: more =>
    if a = quote ∧ b = quote then ([a, b], more)
    else if a = quote then ([a], b :: more)
    else ([], rest)
  | [a] => if a = quote then ([a], []) else ([], rest)
  | [] => ([], [])

/-- What a backslash at the end of a line takes away: blanks and a line break, then all blanks and
line breaks. -/
inductive Gap where
  | none
  | line
  | all
  deriving DecidableEq, Repr

/-- After three opening double quotes. -/
def longBasic (gap : Gap) : List Char → Scanned
  | [] => none
  | '\r' :: '\n' :: rest =>
    match gap with
    | .none => (longBasic .none rest).cons (some '\n')
    | .line | .all => longBasic .all rest
  | '\n' :: rest =>
    match gap with
    | .none => (longBasic .none rest).cons (some '\n')
    | .line | .all => longBasic .all rest
  | c :: rest =>
    if gap ≠ .none ∧ isBlank c then longBasic gap rest
    else if gap = .line then none
    else
      match c, rest with
      | '"', '"' :: '"' :: rest => some (closing '"' rest)
      | '\\', 'u' :: a :: b :: c :: d :: rest =>
        (longBasic .none rest).cons (coded? [a, b, c, d])
      | '\\', 'U' :: a :: b :: c :: d :: e :: f :: g :: h :: rest =>
        (longBasic .none rest).cons (coded? [a, b, c, d, e, f, g, h])
      | '\\', ' ' :: rest | '\\', '\t' :: rest => longBasic .line rest
      | '\\', '\n' :: rest | '\\', '\r' :: '\n' :: rest => longBasic .all rest
      | '\\', c :: rest => (longBasic .none rest).cons (escaped? c)
      | c, rest => if isPrintable c ∧ c ≠ '\\' then (longBasic .none rest).cons (some c) else none

/-- After three opening single quotes. -/
def longLiteral : List Char → Scanned
  | [] => none
  | '\'' :: '\'' :: '\'' :: rest => some (closing '\'' rest)
  | '\r' :: '\n' :: rest => (longLiteral rest).cons (some '\n')
  | c :: rest =>
    if isPrintable c ∨ c = '\n' then (longLiteral rest).cons (some c) else none

/-- A line break right after three opening quotes is no content. -/
def afterOpening (s : List Char) : List Char :=
  match s with
  | '\n' :: rest | '\r' :: '\n' :: rest => rest
  | _ => s

/-- A string of any of the four kinds, if the text starts with one. -/
def quoted (s : List Char) : Scanned :=
  match s with
  | '"' :: '"' :: '"' :: rest => longBasic .none (afterOpening rest)
  | '\'' :: '\'' :: '\'' :: rest => longLiteral (afterOpening rest)
  | '"' :: rest => basic rest
  | '\'' :: rest => literal rest
  | _ => none

end SeriesTable.Toml
