/-
  Writing JSON: quoted text, and arrays and objects of already written parts, on one line or
  indented.
-/

namespace SeriesTable.Json

/-- Arrays and objects on one line, or one element a line with two blanks a level. -/
inductive Style where
  | compact
  | indented
  deriving DecidableEq, Repr

/-- A small hexadecimal digit. -/
def hexDigit (n : Nat) : Char := (Nat.digitChar n)

/-- A control character as a four-digit escape. -/
def escapeCode (c : Char) : List Char :=
  ['\\', 'u', '0', '0', hexDigit (c.toNat / 16), hexDigit (c.toNat % 16)]

/-- The quote, the backslash and the control characters are escaped, all else stands for
itself. -/
def escape (c : Char) : List Char :=
  if c = '"' then ['\\', '"']
  else if c = '\\' then ['\\', '\\']
  else if c = '\n' then ['\\', 'n']
  else if c = '\r' then ['\\', 'r']
  else if c = '\t' then ['\\', 't']
  else if c.toNat = 8 then ['\\', 'b']
  else if c.toNat = 12 then ['\\', 'f']
  else if c.toNat < 32 then escapeCode c
  else [c]

/-- A string between quotes, with what must be escaped. -/
def quote (s : String) : String :=
  String.ofList ('"' :: s.toList.flatMap escape ++ ['"'])

/-- The start of a line at a nesting depth. -/
def Style.lineBreak (style : Style) (depth : Nat) : String :=
  match style with
  | .compact => ""
  | .indented => "\n" ++ String.ofList (List.replicate (2 * depth) ' ')

/-- Written elements between brackets; no elements leave no room between them. -/
def bracket (style : Style) (depth : Nat) (opening closing : String) (parts : List String) :
    String :=
  if parts.isEmpty then opening ++ closing
  else
    opening ++ style.lineBreak (depth + 1)
      ++ String.intercalate ("," ++ style.lineBreak (depth + 1)) parts
      ++ style.lineBreak depth ++ closing

/-- An array whose elements were written one level deeper. -/
def array (style : Style) (depth : Nat) (items : List String) : String :=
  bracket style depth "[" "]" items

/-- An object whose values were written one level deeper. -/
def object (style : Style) (depth : Nat) (fields : List (String × String)) : String :=
  let colon := if style = .indented then ": " else ":"
  bracket style depth "\x7b" "\x7d" (fields.map fun (name, value) => quote name ++ colon ++ value)

end SeriesTable.Json
