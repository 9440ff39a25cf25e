/-!
Writing comma-separated tables. A field is quoted when it holds a comma, a quote or a line end, and
quotes inside it are doubled. Every record ends in a line feed. A record that would leave its line empty
is written as a pair of quotes, like a record of one empty field.
-/

namespace FlowTour.Csv

def needsQuotes (field : List Char) : Bool :=
  field.any fun character =>
    character = ',' || character = '"' || character = '\n' || character = '\r'

def writeField (field : String) : List Char :=
  let characters := field.toList
  if needsQuotes characters then
    '"' :: (characters.flatMap fun character =>
      if character = '"' then ['"', '"'] else [character]) ++ ['"']
  else characters

def writeFields (fields : List String) : List Char := [','].intercalate (fields.map writeField)

def writeRecord (fields : List String) : List Char :=
  let written := writeFields fields
  (if written.isEmpty then ['"', '"'] else written) ++ ['\n']

def write (records : List (List String)) : String := String.ofList (records.flatMap writeRecord)

end FlowTour.Csv
