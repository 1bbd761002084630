/-
  Comma-separated text: fields separated by commas, records ended by line feeds. A field with a
  comma, a quote or a line feed is put in quotes, and a quote inside it is written twice.
-/

namespace SeriesTable.Csv

/-- The character makes quotes necessary. -/
def NeedsQuotes (c : Char) : Prop := c = ',' ∨ c = '"' ∨ c = '\n'

instance (c : Char) : Decidable (NeedsQuotes c) := inferInstanceAs (Decidable (_ ∨ _ ∨ _))

/-- Every quote twice. -/
def doubled (s : List Char) : List Char := s.flatMap fun c => if c = '"' then ['"', '"'] else [c]

/-- A field as it is written. -/
def field (s : List Char) : List Char :=
  if s.any fun c => NeedsQuotes c then '"' :: doubled s ++ ['"'] else s

/-- Written fields as a line. -/
def line (fields : List (List Char)) : List Char := [','].intercalate fields ++ ['\n']

end SeriesTable.Csv
