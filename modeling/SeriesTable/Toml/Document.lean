import SeriesTable.Toml.Quoted
import SeriesTable.Toml.Scalar

/-
  TOML documents: lines of assignments and headers, read into one table.

  The loops over elements and lines are bounded by the length of the text, since every element
  takes at least one character.
-/

namespace SeriesTable.Toml

/-- A reader gives what it has read and the rest of the text. -/
abbrev Reader (α : Type) := List Char → Option (α × List Char)

/-- The text after blanks. -/
def skipBlanks (s : List Char) : List Char := s.dropWhile isBlank

/-- The character may stand in a comment. -/
def isCommentary (c : Char) : Bool := isPrintable c ∨ c.toNat = 127

/-- The text after blanks, line breaks and comments. -/
def skipLines (inComment : Bool) : List Char → Option (List Char)
  | [] => some []
  | '\n' :: rest | '\r' :: '\n' :: rest => skipLines false rest
  | c :: rest =>
    if inComment then (if isCommentary c then skipLines true rest else none)
    else if isBlank c then skipLines false rest
    else if c = '#' then skipLines true rest
    else some (c :: rest)

/-- The text after the end of a line that holds no more than a comment. -/
def endLine (s : List Char) : Option (List Char) :=
  let comment := match skipBlanks s with
    | '#' :: rest => rest.dropWhile isCommentary
    | rest => rest
  match comment with
  | [] => some []
  | '\n' :: rest | '\r' :: '\n' :: rest => some rest
  | _ => none

/-! ## Keys -/

/-- The character may stand in a key without quotes. -/
def isBare (c : Char) : Bool := c.isAlphanum ∨ c = '-' ∨ c = '_'

/-- A bare key, or one in quotes. -/
def simpleKey : Reader String := fun s =>
  match s with
  | '"' :: rest => (basic rest).map fun (key, rest) => (String.ofList key, rest)
  | '\'' :: rest => (literal rest).map fun (key, rest) => (String.ofList key, rest)
  | _ =>
    let (key, rest) := s.span isBare
    if key = [] then none else some (String.ofList key, rest)

/-- Keys with points between them. -/
def dottedKey : Nat → Reader (List String)
  | 0, _ => none
  | fuel + 1, s => do
    let (key, rest) ← simpleKey (skipBlanks s)
    match skipBlanks rest with
    | '.' :: rest => do
      let (keys, rest) ← dottedKey fuel rest
      return (key :: keys, rest)
    | rest => return ([key], rest)

/-- Keys have fewer parts than this, and values are nested less deeply. -/
def nestingLimit : Nat := 80

/-- A dotted key with few enough parts. -/
def key : Reader (List String) := fun s => do
  let (keys, rest) ← dottedKey s.length s
  if keys.length < nestingLimit then return (keys, rest) else none

/-! ## Values -/

/-- The character may stand in a value without quotes. -/
def isWord (c : Char) : Bool := c.isAlphanum ∨ c ∈ ['+', '-', '_', '.', ':']

/-- A value without quotes and brackets. A blank may stand between a date and a time. -/
def word : Reader Toml := fun s => do
  let (w, rest) := s.span isWord
  match date? w, rest with
  | some [], ' ' :: more =>
    let (time, more) := more.span isWord
    if (time.head?.map Char.isDigit).getD false then
      if isClockTime time then return (.moment, more) else none
    else return (.moment, rest)
  | _, _ => return (← scalar? w, rest)

/-- The elements of an array up to its bracket. -/
def items (value : Reader Toml) : Nat → Reader (List Toml)
  | 0, _ => none
  | fuel + 1, s => do
    match ← skipLines false s with
    | ']' :: rest => return ([], rest)
    | s => do
      let (item, rest) ← value s
      match ← skipLines false rest with
      | ',' :: rest => do
        let (more, rest) ← items value fuel rest
        return (item :: more, rest)
      | ']' :: rest => return ([item], rest)
      | _ => none

/-- A key and its value. -/
def assignment (value : Reader Toml) : Reader (List String × Toml) := fun s => do
  let (keys, rest) ← key s
  match rest with
  | '=' :: rest => do
    let (v, rest) ← value (skipBlanks rest)
    return ((keys, v), rest)
  | _ => none

/-- The assignments of a table in braces, which stands on one line. -/
def assignments (value : Reader Toml) : Nat → Reader (List (List String × Toml))
  | 0, _ => none
  | fuel + 1, s => do
    let (first, rest) ← assignment value s
    match skipBlanks rest with
    | ',' :: rest => do
      let (more, rest) ← assignments value fuel rest
      return (first :: more, rest)
    | '\x7d' :: rest => return ([first], rest)
    | _ => none

/-- A string or a word. -/
def flat : Reader Toml := fun s =>
  match s with
  | '"' :: _ | '\'' :: _ => (quoted s).map fun (text, rest) => (.string (String.ofList text), rest)
  | _ => word s

/-- A value with brackets and braces nested up to `depth`. -/
def value : Nat → Reader Toml
  | 0, s => flat s
  | depth + 1, s =>
    match s with
    | '[' :: rest => do
      let (xs, rest) ← items (value depth) (rest.length + 1) rest
      return (.array xs, rest)
    | '\x7b' :: rest =>
      match skipBlanks rest with
      | '\x7d' :: rest => some (.table .braced [], rest)
      | rest => do
        let (fields, rest) ← assignments (value depth) (rest.length + 1) rest
        return (← ofAssignments? fields, rest)
    | _ => flat s

/-! ## Documents -/

/-- An assignment or a header. -/
def statement : Reader Statement := fun s =>
  match s with
  | '[' :: '[' :: rest => do
    let (path, rest) ← key rest
    match rest with
    | ']' :: ']' :: rest => return (.arrayHeader path, rest)
    | _ => none
  | '[' :: rest => do
    let (path, rest) ← key rest
    match rest with
    | ']' :: rest => return (.header path, rest)
    | _ => none
  | _ => do
    let ((path, v), rest) ← assignment (value (nestingLimit - 1)) s
    return (.assignment path v, rest)

/-- The statements of a text, each on lines of its own. -/
def statements : Nat → List Char → Option (List Statement)
  | 0, _ => none
  | fuel + 1, s => do
    match ← skipLines false s with
    | [] => return []
    | s => do
      let (first, rest) ← statement s
      return first :: (← statements fuel (← endLine rest))

/-- The table that a text holds. A byte order mark in front of it is no part of it. -/
def ofText? (text : String) : Option Fields := do
  let s := match text.toList with
    | '\ufeff' :: rest => rest
    | s => s
  ofStatements? (← statements (s.length + 1) s)

end SeriesTable.Toml
