import SeriesTable.Json.Token

/-
  JSON documents as trees, and the reading of a record from one: by field names, or as a list of
  its fields in order.
-/

namespace SeriesTable.Json

/-- A document. Names and strings with half of a surrogate pair in them have no content. -/
inductive Node where
  | null
  | bool (b : Bool)
  | number (text : List Char)
  | string (content : Option String)
  | array (items : List Node)
  | object (fields : List (Option String × Node))

/-- An array or an object whose end has not been read. What it holds so far is in reverse; an
object also has the name of the field that comes next. -/
inductive Partial where
  | array (items : List Node)
  | object (fields : List (Option String × Node)) (name : Option String)

/-- What may come next. -/
inductive Expectation where
  | value
  | valueOrClose
  | name
  | nameOrClose
  | colon
  | commaOrClose
  | nothing
  deriving DecidableEq, Repr

/-- A document that is being read: what is open, innermost first, or the finished tree. -/
structure Builder where
  pending : List Partial
  expects : Expectation
  root : Node

namespace Builder

/-- A builder that has seen nothing and expects a value. -/
def start : Builder := ⟨[], .value, .null⟩

/-- A finished value put where it belongs. -/
def place (b : Builder) (n : Node) : Builder :=
  match b.pending with
  | [] => ⟨[], .nothing, n⟩
  | .array items :: rest =>
    { b with pending := .array (n :: items) :: rest, expects := .commaOrClose }
  | .object fields name :: rest =>
    { b with pending := .object ((name, n) :: fields) none :: rest, expects := .commaOrClose }

/-- The innermost array or object has ended. -/
def close? (b : Builder) (array : Bool) : Option Builder :=
  match b.pending with
  | .array items :: rest =>
    if array then some ({ b with pending := rest }.place (.array items.reverse)) else none
  | .object fields _ :: rest =>
    if array then none else some ({ b with pending := rest }.place (.object fields.reverse))
  | [] => none

/-- A token where a value is expected. -/
def value? (b : Builder) : Token → Option Builder
  | .null => some (b.place .null)
  | .bool x => some (b.place (.bool x))
  | .number text => some (b.place (.number text))
  | .string content => some (b.place (.string content))
  | .openArray =>
    some { b with pending := .array [] :: b.pending, expects := .valueOrClose }
  | .openObject =>
    some { b with pending := .object [] none :: b.pending, expects := .nameOrClose }
  | .closeArray | .closeObject | .comma | .colon => none

/-- A field's name. -/
def name? (b : Builder) : Token → Option Builder
  | .string content =>
    match b.pending with
    | .object fields _ :: rest =>
      some { b with pending := .object fields content :: rest, expects := .colon }
    | _ => none
  | _ => none

/-- One more token. -/
def step (b : Builder) (t : Token) : Option Builder :=
  match b.expects with
  | .value => b.value? t
  | .valueOrClose => if t = .closeArray then b.close? true else b.value? t
  | .name => b.name? t
  | .nameOrClose => if t = .closeObject then b.close? false else b.name? t
  | .colon => if t = .colon then some { b with expects := .value } else none
  | .commaOrClose =>
    match t with
    | .closeArray => b.close? true
    | .closeObject => b.close? false
    | .comma =>
      match b.pending with
      | .array _ :: _ => some { b with expects := .value }
      | .object .. :: _ => some { b with expects := .name }
      | [] => none
    | _ => none
  | .nothing => none

end Builder

namespace Node

/-- The document that a text holds. -/
def ofText? (s : String) : Option Node := do
  let b ← (← tokens? s).foldlM Builder.step Builder.start
  if b.expects = .nothing then some b.root else none

/-- A string with content. -/
def string? : Node → Option String
  | string content => content
  | _ => none

/-- A storable integer. -/
def integer? : Node → Option Int
  | number text => Json.integer? text
  | _ => none

/-- A list of strings. -/
def strings? : Node → Option (List String)
  | array items => items.mapM string?
  | _ => none

/-- The one field of a name. -/
def field? (fields : List (Option String × Node)) (name : String) : Option Node :=
  match fields.filter fun f => f.1 = some name with
  | [f] => some f.2
  | _ => none

/-- The fields of a record in the order of their names. An object has each of them once, and may
have others; an array has them in order and no others. -/
def record? (names : List String) : Node → Option (List Node)
  | object fields =>
    if fields.all fun f => f.1.isSome then names.mapM (field? fields) else none
  | array items => if items.length = names.length then some items else none
  | _ => none

end Node

end SeriesTable.Json
