import HiringService.Errors

/-!
# `csv_parser`

The three parsers turn each row of a file into a record or into an error entry with the row's
1-based number. What they share is `parseRows`, a loop over the rows with the conversion as a
parameter; `none` is an exception inside the conversion. Exceptions of the decoding and of the
reader leave the parser.
-/

namespace HiringService

/-- The bytes of a file. -/
abbrev Bytes := List UInt8

/-- The error entry of row `i`. -/
def rowError (i : ℕ) : String := "row " ++ toString i ++ ": invalid"

/-- The loop of the parsers, from row number `i` on. -/
def parseRows {α : Type} (convert : List String → Option α) :
    ℕ → List (List String) → List α × List String
  | _, [] => ([], [])
  | i, row :: rows =>
      let (records, errors) := parseRows convert (i + 1) rows
      match convert row with
      | some record => (record :: records, errors)
      | none => (records, rowError i :: errors)

/-- The rows of a file: `csv.reader(io.StringIO(raw.decode()))`. -/
def readFile (raw : Bytes) : Except Exn (List (List String)) :=
  match Python.decode raw with
  | none => .error .unicodeDecode
  | some text => (Python.Csv.reader text).mapError .csv

/-- A parser: records and error entries, both in file order. -/
def parseFile {α : Type} (convert : List String → Option α) (raw : Bytes) :
    Except Exn (List α × List String) :=
  (readFile raw).map (parseRows convert 1)

/-- The conversion of a row to a department or a job. -/
def referenceOfRow (row : List String) : Option ReferenceRecord := do
  let id ← Python.int (← row[0]?)
  let name ← row[1]?
  return ⟨id, name⟩

/-- The conversion of a row to an employee. -/
def employeeOfRow (row : List String) : Option EmployeeRecord := do
  let id ← Python.int (← row[0]?)
  let name ← row[1]?
  let hiringDatetime ← Python.fromisoformat (← row[2]?)
  let departmentId ← Python.int (← row[3]?)
  let jobId ← Python.int (← row[4]?)
  return ⟨id, name, hiringDatetime, departmentId, jobId⟩

/-- `parse_departments`. -/
def parseDepartments : Bytes → Except Exn (List DepartmentRecord × List String) :=
  parseFile referenceOfRow

/-- `parse_jobs`. -/
def parseJobs : Bytes → Except Exn (List JobRecord × List String) := parseFile referenceOfRow

/-- `parse_employees`. -/
def parseEmployees : Bytes → Except Exn (List EmployeeRecord × List String) :=
  parseFile employeeOfRow

/-- Every row gives one record or one error entry. -/
theorem length_parseRows {α : Type} (convert : List String → Option α) (i : ℕ)
    (rows : List (List String)) :
    (parseRows convert i rows).1.length + (parseRows convert i rows).2.length = rows.length := by
  induction rows generalizing i with
  | nil => rfl
  | cons row rows ih =>
      have hrows := ih (i + 1)
      simp only [parseRows]
      split
      · simp only [List.length_cons]
        omega
      · simp only [List.length_cons]
        omega

/-- A parser that returns accounts for every row of the file. -/
theorem parseFile_length {α : Type} {convert : List String → Option α} {raw : Bytes}
    {records : List α} {errors : List String}
    (h : parseFile convert raw = .ok (records, errors)) :
    ∃ rows, readFile raw = .ok rows ∧ records.length + errors.length = rows.length := by
  unfold parseFile at h
  rcases hrows : readFile raw with e | rows
  · rw [hrows] at h
    cases h
  · rw [hrows] at h
    have hpair : parseRows convert 1 rows = (records, errors) := Except.ok.inj h
    have hlen := length_parseRows convert 1 rows
    rw [hpair] at hlen
    exact ⟨rows, rfl, hlen⟩

/-- The error entries are those of rows. -/
theorem mem_parseRows_errors {α : Type} {convert : List String → Option α} {i : ℕ}
    {rows : List (List String)} {entry : String} (h : entry ∈ (parseRows convert i rows).2) :
    ∃ j, entry = rowError j := by
  induction rows generalizing i with
  | nil => cases h
  | cons row rows ih =>
      simp only [parseRows] at h
      split at h
      · exact ih h
      · rcases List.mem_cons.mp h with rfl | h
        · exact ⟨i, rfl⟩
        · exact ih h

theorem mem_parseFile_errors {α : Type} {convert : List String → Option α} {raw : Bytes}
    {records : List α} {errors : List String} (h : parseFile convert raw = .ok (records, errors))
    {entry : String} (hentry : entry ∈ errors) : ∃ j, entry = rowError j := by
  unfold parseFile at h
  rcases hrows : readFile raw with e | rows
  · rw [hrows] at h
    cases h
  · rw [hrows] at h
    have hpair : parseRows convert 1 rows = (records, errors) := Except.ok.inj h
    exact mem_parseRows_errors (by rw [hpair]; exact hentry)

end HiringService
