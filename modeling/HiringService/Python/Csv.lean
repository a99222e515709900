import Mathlib.Data.List.Basic

/-!
# The reader of Python's `csv` module

The `excel` dialect of Python 3.11: comma, double quote, doubled quotes inside quoted fields, no
escape character, not strict. The reader takes the lines of `io.StringIO(text)`, which end at `\n`
only, feeds a state machine one character at a time with an end-of-line mark after each line, and
delivers a row whenever the machine is back at the start of a record after a line. U+0000 is an
ordinary character.
-/

namespace Python.Csv

/-- The states of the reader. -/
inductive State
  | startRecord
  | startField
  | inField
  | inQuotedField
  | quoteInQuotedField
  | eatCrnl
  deriving DecidableEq

/-- A `csv.Error`. -/
inductive Error
  | newLineInUnquotedField
  | fieldLargerThanLimit
  deriving DecidableEq

/-- `csv.field_size_limit()`. -/
def fieldLimit : ℕ := 131072

/-- The reader inside a row: its state, the characters of the current field, latest first, and the
fields that are complete, latest first. -/
structure Reader where
  state : State
  field : List Char
  fields : List String

/-- A reader that is about to read a row. -/
def Reader.reset : Reader := ⟨.startRecord, [], []⟩

/-- `parse_save_field`. -/
def Reader.saveField (r : Reader) : Reader :=
  { r with field := [], fields := String.ofList r.field.reverse :: r.fields }

/-- `parse_add_char`. -/
def Reader.addChar (r : Reader) (c : Char) : Except Error Reader :=
  if fieldLimit ≤ r.field.length then .error .fieldLargerThanLimit
  else .ok { r with field := c :: r.field }

/-- An unquoted field ends at a line break. -/
def Reader.endRecord (r : Reader) (next : State) : Except Error Reader :=
  .ok { r.saveField with state := next }

/-- `parse_process_char` on a character in the states that begin a field. -/
def Reader.beginField (r : Reader) (c : Char) : Except Error Reader :=
  if c = '\n' ∨ c = '\r' then r.endRecord .eatCrnl
  else if c = '"' then .ok { r with state := .inQuotedField }
  else if c = ',' then .ok { r.saveField with state := .startField }
  else do
    let r ← r.addChar c
    return { r with state := .inField }

/-- `parse_process_char` on a character of a line. -/
def Reader.processChar (r : Reader) (c : Char) : Except Error Reader :=
  match r.state with
  | .startRecord =>
      if c = '\n' ∨ c = '\r' then .ok { r with state := .eatCrnl } else r.beginField c
  | .startField => r.beginField c
  | .inField =>
      if c = '\n' ∨ c = '\r' then r.endRecord .eatCrnl
      else if c = ',' then .ok { r.saveField with state := .startField }
      else r.addChar c
  | .inQuotedField =>
      if c = '"' then .ok { r with state := .quoteInQuotedField } else r.addChar c
  | .quoteInQuotedField =>
      if c = '"' then do
        let r ← r.addChar c
        return { r with state := .inQuotedField }
      else if c = ',' then .ok { r.saveField with state := .startField }
      else if c = '\n' ∨ c = '\r' then r.endRecord .eatCrnl
      else do
        let r ← r.addChar c
        return { r with state := .inField }
  | .eatCrnl => if c = '\n' ∨ c = '\r' then .ok r else .error .newLineInUnquotedField

/-- `parse_process_char` on the end-of-line mark. -/
def Reader.processEol (r : Reader) : Except Error Reader :=
  match r.state with
  | .startRecord => .ok r
  | .startField | .inField | .quoteInQuotedField => r.endRecord .startRecord
  | .inQuotedField => .ok r
  | .eatCrnl => .ok { r with state := .startRecord }

/-- One line of the input. -/
def Reader.processLine (r : Reader) (line : List Char) : Except Error Reader := do
  let r ← line.foldlM Reader.processChar r
  r.processEol

/-- The lines of `io.StringIO(text)`, with their line ends. -/
def splitLines : List Char → List (List Char)
  | [] => []
  | c :: rest =>
      if c = '\n' then [c] :: splitLines rest
      else match splitLines rest with
        | [] => [[c]]
        | line :: lines => (c :: line) :: lines

/-- The rows that the reader delivers from `lines`. A row that is still open when the input ends is
delivered as it stands if it is inside a quoted field. -/
def readRows : Reader → List (List Char) → Except Error (List (List String))
  | r, [] =>
      if r.field ≠ [] ∨ r.state = .inQuotedField then .ok [r.saveField.fields.reverse] else .ok []
  | r, line :: lines => do
      let r ← r.processLine line
      if r.state = .startRecord then
        let rows ← readRows .reset lines
        return r.fields.reverse :: rows
      else readRows r lines

/-- `list(csv.reader(io.StringIO(text)))`. -/
def reader (text : List Char) : Except Error (List (List String)) :=
  readRows .reset (splitLines text)

end Python.Csv
