import FlowTour.Csv.Reader
import FlowTour.Csv.Writer

/-!
What is written as a table reads back as the same records, whatever the fields hold. The scan of a
written field ends outside quotes with the field's characters, whether it was quoted or not; then a
comma ends the field and a line feed the record. No record with a field is written as an empty line, which
the reader would pass over.
-/

namespace FlowTour.Csv

/-- A character that stands for itself outside quotes. -/
def IsPlain (character : Char) : Prop :=
  character ≠ ',' ∧ character ≠ '"' ∧ character ≠ '\n' ∧ character ≠ '\r'

theorem needs_quotes_eq_false_iff {characters : List Char} :
    needsQuotes characters = false ↔ ∀ character ∈ characters, IsPlain character := by
  simp [needsQuotes, IsPlain, and_assoc]

def doubled (character : Char) : List Char :=
  if character = '"' then ['"', '"'] else [character]

theorem write_field_of_plain {field : String}
    (plain : ∀ character ∈ field.toList, IsPlain character) : writeField field = field.toList := by
  have bare := needs_quotes_eq_false_iff.mpr plain
  simp only [writeField, bare, Bool.false_eq_true, if_false]

theorem write_field_of_needs_quotes {field : String} (special : needsQuotes field.toList = true) :
    writeField field = '"' :: (field.toList.flatMap doubled ++ ['"']) := by
  simp only [writeField, special, if_true]
  rfl

theorem write_fields_singleton (field : String) : writeFields [field] = writeField field := by
  simp [writeFields]

theorem write_fields_cons_cons (first second : String) (rest : List String) :
    writeFields (first :: second :: rest) =
      writeField first ++ ',' :: writeFields (second :: rest) := by
  simp [writeFields, List.intercalate_cons_cons]

theorem eq_of_write_fields_eq_nil {first : String} {rest : List String}
    (empty : writeFields (first :: rest) = []) : first = "" ∧ rest = [] := by
  cases rest with
  | nil =>
      rw [write_fields_singleton] at empty
      cases special : needsQuotes first.toList with
      | false =>
          rw [write_field_of_plain (needs_quotes_eq_false_iff.mp special)] at empty
          exact ⟨String.toList_eq_nil_iff.mp empty, rfl⟩
      | true =>
          rw [write_field_of_needs_quotes special] at empty
          cases empty
  | cons second rest =>
      rw [write_fields_cons_cons] at empty
      simp at empty

namespace Scan

variable {scan start : Scan}

/-- A scan where the next field begins. -/
structure AtField (scan : Scan) : Prop where
  place : scan.place = .recordStart ∨ scan.place = .fieldStart
  blank : scan.field = []

/-- A scan that has seen the characters of a field since it was at the start of it. -/
structure AfterField (start scan : Scan) (written : List Char) : Prop where
  field : scan.field = written.reverse
  fields : scan.fields = start.fields
  records : scan.records = start.records
  outside : scan.place ≠ .quoted
  /-- The record has begun, unless nothing was written at its start. -/
  begun : scan.place = .recordStart → start.place = .recordStart ∧ written = []

theorem step_comma (outside : scan.place ≠ .quoted) : scan.step ',' = scan.endField := by
  obtain ⟨place, field, fields, records⟩ := scan
  cases place with
  | quoted => exact absurd rfl outside
  | _ => rfl

theorem step_line_feed (outside : scan.place ≠ .quoted) (begun : scan.place ≠ .recordStart) :
    scan.step '\n' = scan.endRecord := by
  obtain ⟨place, field, fields, records⟩ := scan
  cases place with
  | quoted => exact absurd rfl outside
  | recordStart => exact absurd rfl begun
  | _ => rfl

section Plain

variable {character : Char} {characters : List Char}

theorem step_plain (plain : IsPlain character) (outside : scan.place ≠ .quoted)
    (unclosed : scan.place ≠ .quotedQuote) :
    scan.step character = scan.addCharacter .unquoted character := by
  obtain ⟨comma, quote, lineFeed, carriageReturn⟩ := plain
  obtain ⟨place, field, fields, records⟩ := scan
  cases place with
  | quoted => exact absurd rfl outside
  | quotedQuote => exact absurd rfl unclosed
  | _ => simp [step, Scan.plain, comma, quote, lineFeed, carriageReturn]

theorem foldl_plain (plain : ∀ character ∈ characters, IsPlain character)
    (inside : scan.place = .unquoted) :
    characters.foldl step scan = { scan with field := characters.reverse ++ scan.field } := by
  induction characters generalizing scan with
  | nil => rfl
  | cons character rest induction =>
      obtain ⟨here, later⟩ := List.forall_mem_cons.mp plain
      have stepped : scan.step character = scan.addCharacter .unquoted character :=
        step_plain here (by simp [inside]) (by simp [inside])
      rw [List.foldl_cons, stepped, induction later rfl]
      simp [addCharacter, inside]

theorem AtField.foldl_plain (atField : start.AtField)
    (plain : ∀ character ∈ characters, IsPlain character) :
    start.AfterField (characters.foldl step start) characters := by
  have outside : start.place ≠ .quoted ∧ start.place ≠ .quotedQuote := by
    rcases atField.place with place | place <;> simp [place]
  cases characters with
  | nil => exact ⟨atField.blank, rfl, rfl, outside.1, fun place => ⟨place, rfl⟩⟩
  | cons character rest =>
      obtain ⟨here, later⟩ := List.forall_mem_cons.mp plain
      rw [List.foldl_cons, step_plain here outside.1 outside.2, Scan.foldl_plain later rfl]
      constructor <;> simp [addCharacter, atField.blank]

end Plain

section Quoted

variable {characters : List Char}

theorem foldl_doubled (inside : scan.place = .quoted) :
    (characters.flatMap doubled).foldl step scan =
      { scan with field := characters.reverse ++ scan.field } := by
  induction characters generalizing scan with
  | nil => rfl
  | cons character rest induction =>
      have stepped : (doubled character).foldl step scan = scan.addCharacter .quoted character := by
        by_cases quote : character = '"'
        · simp [doubled, quote, step, inside, addCharacter]
        · simp [doubled, quote, step, inside]
      rw [List.flatMap_cons, List.foldl_append, stepped, induction rfl]
      simp [addCharacter, inside]

theorem AtField.foldl_quoted (atField : start.AtField) :
    start.AfterField (('"' :: (characters.flatMap doubled ++ ['"'])).foldl step start)
      characters := by
  have opened : start.step '"' = { start with place := .quoted } := by
    rcases atField.place with place | place <;> simp [step, place]
  rw [List.foldl_cons, opened, List.foldl_append, foldl_doubled rfl]
  constructor <;> simp [step, atField.blank]

end Quoted

theorem AtField.foldl_write_field (atField : start.AtField) (field : String) :
    start.AfterField ((writeField field).foldl step start) field.toList := by
  cases special : needsQuotes field.toList with
  | false =>
      have plain := needs_quotes_eq_false_iff.mp special
      rw [write_field_of_plain plain]
      exact atField.foldl_plain plain
  | true =>
      rw [write_field_of_needs_quotes special]
      exact atField.foldl_quoted

namespace AfterField

variable {field : String} (after : start.AfterField scan field.toList)
include after

theorem step_comma :
    scan.step ',' = ⟨.fieldStart, [], field :: start.fields, start.records⟩ := by
  rw [Scan.step_comma after.outside, endField, after.field, after.fields, after.records,
    List.reverse_reverse, String.ofList_toList]

theorem step_line_feed (filled : start.place = .recordStart → field ≠ "") :
    scan.step '\n' =
      ⟨.recordStart, [], [], (start.fields.reverse ++ [field]) :: start.records⟩ := by
  have begun : scan.place ≠ .recordStart := by
    intro place
    obtain ⟨atStart, empty⟩ := after.begun place
    exact filled atStart (String.toList_eq_nil_iff.mp empty)
  rw [Scan.step_line_feed after.outside begun, endRecord, endField, after.field, after.fields,
    after.records, List.reverse_reverse, String.ofList_toList, List.reverse_cons]

end AfterField

theorem AtField.foldl_write_fields (atField : start.AtField) (first : String) (rest : List String)
    (filled : start.place = .recordStart → rest = [] → first ≠ "") :
    (writeFields (first :: rest) ++ ['\n']).foldl step start =
      ⟨.recordStart, [], [], (start.fields.reverse ++ first :: rest) :: start.records⟩ := by
  induction rest generalizing start first with
  | nil =>
      rw [write_fields_singleton, List.foldl_append]
      exact (atField.foldl_write_field first).step_line_feed fun place => filled place rfl
  | cons second rest induction =>
      -- What follows the comma is written like these fields, but begins inside the record.
      have next : AtField ⟨.fieldStart, [], first :: start.fields, start.records⟩ :=
        ⟨.inr rfl, rfl⟩
      rw [write_fields_cons_cons, List.append_assoc, List.cons_append, List.foldl_append,
        List.foldl_cons, (atField.foldl_write_field first).step_comma, induction next second nofun]
      simp

theorem foldl_write_record (first : String) (rest : List String) (records : List (List String)) :
    (writeRecord (first :: rest)).foldl step ⟨.recordStart, [], [], records⟩ =
      ⟨.recordStart, [], [], (first :: rest) :: records⟩ := by
  rw [writeRecord]
  cases written : writeFields (first :: rest) with
  | nil =>
      obtain ⟨rfl, rfl⟩ := eq_of_write_fields_eq_nil written
      rfl
  | cons character characters =>
      have atField : AtField ⟨.recordStart, [], [], records⟩ := ⟨.inl rfl, rfl⟩
      refine (congrArg (fun text => (text ++ ['\n']).foldl step _) written.symm).trans ?_
      apply atField.foldl_write_fields
      rintro - rfl rfl
      cases written

end Scan

open Scan

theorem foldl_write_records {table : List (List String)} (filled : [] ∉ table)
    (records : List (List String)) :
    (table.flatMap writeRecord).foldl step ⟨.recordStart, [], [], records⟩ =
      ⟨.recordStart, [], [], table.reverse ++ records⟩ := by
  induction table generalizing records with
  | nil => rfl
  | cons record rest induction =>
      cases record with
      | nil => exact absurd (List.mem_cons_self ..) filled
      | cons first fields =>
          have later : [] ∉ rest := fun member => filled (List.mem_cons_of_mem _ member)
          rw [List.flatMap_cons, List.foldl_append, foldl_write_record, induction later]
          simp

/-- Written records read back, each of them with the fields it has, unless the text happens to begin with
a byte order mark of its own. -/
theorem records_write {table : List (List String)} (filled : [] ∉ table)
    (unmarked : (write table).toList.head? ≠ some '\ufeff') : records (write table) = table := by
  have written : (write table).toList = table.flatMap writeRecord := String.toList_ofList
  rw [written] at unmarked
  unfold records
  rw [written]
  dsimp only
  split
  case h_1 rest begins => exact absurd (congrArg List.head? begins) unmarked
  case h_2 =>
    rw [begin, foldl_write_records filled]
    simp only [finish, if_true, List.append_nil, List.reverse_reverse]

example : records (write [["", "a,b"], [""], ["\"", "c\r\n"]]) =
    [["", "a,b"], [""], ["\"", "c\r\n"]] := by
  decide +kernel

end FlowTour.Csv
