import FlowTour.Decimal.Reader

/-!
Reading comma-separated tables. A record ends at a line feed, a carriage return or both, and empty
lines are no records. A field that begins with a double quote runs to the closing one, with a doubled
quote standing for a quote; what follows the closing quote is taken as it is, and so is a quote inside
a field that began without one. The first record names the columns.
-/

namespace FlowTour.Csv

/-- Where the next character falls. -/
inductive Place where
  | recordStart
  | fieldStart
  | unquoted
  | quoted
  /-- After a quote inside a quoted field: the closing one, unless another one follows. -/
  | quotedQuote
  deriving DecidableEq, Repr

/-- Finished records and fields, and the field being read, all with the latest first. -/
structure Scan where
  place : Place
  field : List Char
  fields : List String
  records : List (List String)

namespace Scan

def begin : Scan := ⟨.recordStart, [], [], []⟩

def addCharacter (scan : Scan) (place : Place) (character : Char) : Scan :=
  { scan with place, field := character :: scan.field }

def endField (scan : Scan) : Scan :=
  { scan with
    place := .fieldStart
    field := []
    fields := String.ofList scan.field.reverse :: scan.fields }

def endRecord (scan : Scan) : Scan :=
  let ended := scan.endField
  { place := .recordStart, field := [], fields := [], records := ended.fields.reverse :: ended.records }

/-- A character outside quotes, in a field that may have begun already. -/
def plain (scan : Scan) (character : Char) : Scan :=
  if character = ',' then scan.endField
  else if character = '\n' ∨ character = '\r' then scan.endRecord
  else scan.addCharacter .unquoted character

def step (scan : Scan) (character : Char) : Scan :=
  match scan.place with
  | .recordStart =>
      if character = '\n' ∨ character = '\r' then scan
      else if character = '"' then { scan with place := .quoted }
      else scan.plain character
  | .fieldStart => if character = '"' then { scan with place := .quoted } else scan.plain character
  | .unquoted => scan.plain character
  | .quoted =>
      if character = '"' then { scan with place := .quotedQuote }
      else scan.addCharacter .quoted character
  | .quotedQuote =>
      if character = '"' then scan.addCharacter .quoted character else scan.plain character

/-- The end of the text ends a record that has begun. -/
def finish (scan : Scan) : List (List String) :=
  let ended := if scan.place = .recordStart then scan else scan.endRecord
  ended.records.reverse

end Scan

/-- The records of a text. A byte order mark in front is no part of it. -/
def records (text : String) : List (List String) :=
  let characters := match text.toList with
    | '\ufeff' :: rest => rest
    | rest => rest
  (characters.foldl Scan.step Scan.begin).finish

inductive Fault where
  /-- A record has another number of fields than the first one. -/
  | unequalLengths
  /-- A needed column is missing or named twice, or its field does not read. -/
  | unreadable
  deriving DecidableEq, Repr

/-- A record with the names of its columns. -/
structure Row where
  header : List String
  fields : List String

namespace Row

def text (row : Row) (column : String) : Except Fault String :=
  match (row.header.zip row.fields).filter fun cell => cell.1 = column with
  | [cell] => .ok cell.2
  | _ => .error .unreadable

def number (row : Row) (column : String) : Except Fault Float := do
  match Decimal.readDouble? (← row.text column) with
  | some value => .ok value
  | none => .error .unreadable

end Row

/-- Reads every record after the first one. The first record at fault decides. -/
def read {Entry : Type} (entry : Row → Except Fault Entry) (text : String) :
    Except Fault (List Entry) :=
  match records text with
  | [] => .ok []
  | header :: rows =>
      rows.mapM fun fields =>
        if fields.length = header.length then entry ⟨header, fields⟩ else .error .unequalLengths

end FlowTour.Csv
