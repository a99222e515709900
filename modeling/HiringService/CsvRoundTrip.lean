import HiringService.CsvRows
import HiringService.Python.CsvWriter
import HiringService.Python.Isoformat
import HiringService.Python.Numerals

/-!
# Which records the parsers return

Records are written as `csv.writer` writes their fields, a number with `str` and a date with
`isoformat`. A list of records is read back from its own file, and returned for any file at all,
exactly when each record is writable: its numbers have at most 4300 digits, its name is within the
limit of the reader, and its date is in the range of `datetime`.
-/

namespace HiringService

open Python (maxStrDigits)
open Python.Csv (fieldLimit)

/-! ## Writing records -/

/-- The file that `csv.writer` makes of the rows. -/
def fileOf (rows : List (List String)) : Bytes := Python.encode (Python.Csv.writer rows)

/-- The row of a department or a job. -/
def ReferenceRecord.fields (r : ReferenceRecord) : List String := [toString r.id, r.name]

/-- The row of an employee. -/
def EmployeeRecord.fields (r : EmployeeRecord) : List String :=
  [toString r.id, r.name, r.hiringDatetime.isoformat, toString r.departmentId, toString r.jobId]

/-- `int` reads a numeral of the number. -/
def printable (n : ℤ) : Prop := n.natAbs < 10 ^ maxStrDigits

/-- A department or a job that a row can hold. -/
structure ReferenceRecord.Writable (r : ReferenceRecord) : Prop where
  id : printable r.id
  name : r.name.length ≤ fieldLimit

/-- An employee that a row can hold. -/
structure EmployeeRecord.Writable (r : EmployeeRecord) : Prop where
  id : printable r.id
  name : r.name.length ≤ fieldLimit
  hiringDatetime : r.hiringDatetime.Valid
  departmentId : printable r.departmentId
  jobId : printable r.jobId

/-- A list of records is read back from its own file, and returned for some file, if and only if all
its records are writable. -/
def ReadsBack {α : Type} (parser : Bytes → Except Exn (List α × List String))
    (fields : α → List String) (writable : α → Prop) : Prop :=
  ∀ records : List α,
    (parser (fileOf (records.map fields)) = .ok (records, []) ↔ ∀ r ∈ records, writable r) ∧
      ((∃ raw errors, parser raw = .ok (records, errors)) ↔ ∀ r ∈ records, writable r)

/-! ## Files -/

section Files

variable {α : Type} {convert : List String → Option α} {fields : α → List String}
  {writable : α → Prop} {records : List α} {rows : List (List String)}

/-- The reader reads what the writer has written, if no field is too long. -/
theorem readFile_fileOf (hlimit : ∀ row ∈ rows, ∀ f ∈ row, f.length ≤ fieldLimit) :
    readFile (fileOf rows) = .ok rows := by
  rw [readFile, fileOf, Python.decode_eq_some_iff.mpr rfl]
  show (Python.Csv.reader (Python.Csv.writer rows)).mapError Exn.csv = _
  rw [Python.Csv.reader_writer hlimit]
  rfl

/-- The fields of the rows of a file are within the limit. -/
theorem length_le_of_readFile {raw : Bytes} (h : readFile raw = .ok rows) :
    ∀ row ∈ rows, ∀ f ∈ row, f.length ≤ fieldLimit := by
  rw [readFile] at h
  split at h
  · cases h
  · rename_i text _
    rcases hrows : Python.Csv.reader text with e | rows'
    · rw [hrows] at h
      cases h
    · rw [hrows] at h
      cases h
      exact Python.Csv.length_le_of_reader hrows

/-- Rows that are all converted leave no error entry. -/
theorem parseRows_map (hconvert : ∀ r ∈ records, convert (fields r) = some r) (i : ℕ) :
    parseRows convert i (records.map fields) = (records, []) := by
  induction records generalizing i with
  | nil => rfl
  | cons r records ih =>
      obtain ⟨hr, hrecords⟩ := List.forall_mem_cons.mp hconvert
      rw [List.map_cons, parseRows, ih hrecords, hr]

/-- A parser reads back records whose fields convert. -/
theorem parseFile_fileOf (hconvert : ∀ r ∈ records, convert (fields r) = some r)
    (hlimit : ∀ r ∈ records, ∀ f ∈ fields r, f.length ≤ fieldLimit) :
    parseFile convert (fileOf (records.map fields)) = .ok (records, []) := by
  have hrows : ∀ row ∈ records.map fields, ∀ f ∈ row, f.length ≤ fieldLimit :=
    List.forall_mem_map.mpr hlimit
  rw [parseFile, readFile_fileOf hrows, ← parseRows_map hconvert 1]
  rfl

/-- What the conversion makes of rows within the limit is all that the parser returns. -/
theorem writable_of_parseFile {raw : Bytes} {errors : List String}
    (hconvert : ∀ row r, (∀ f ∈ row, f.length ≤ fieldLimit) → convert row = some r → writable r)
    (h : parseFile convert raw = .ok (records, errors)) : ∀ r ∈ records, writable r := by
  rw [parseFile] at h
  rcases hrows : readFile raw with e | rows
  · rw [hrows] at h
    cases h
  · have hlimit := length_le_of_readFile hrows
    rw [hrows] at h
    have hrecords : rows.filterMap convert = records := by
      have hpair : parseRows convert 1 rows = (records, errors) := Except.ok.inj h
      rw [parseRows_eq] at hpair
      exact congrArg Prod.fst hpair
    intro r hr
    rw [← hrecords] at hr
    obtain ⟨row, hrow, hr⟩ := List.mem_filterMap.mp hr
    exact hconvert row r (hlimit row hrow) hr

/-- A parser reads its records back if its conversion reads writable records back, and makes only
writable records. -/
theorem readsBack_parseFile
    (hwrite : ∀ r, writable r → convert (fields r) = some r ∧ ∀ f ∈ fields r, f.length ≤ fieldLimit)
    (hconvert : ∀ row r, (∀ f ∈ row, f.length ≤ fieldLimit) → convert row = some r → writable r) :
    ReadsBack (parseFile convert) fields writable := by
  intro records
  have hback (h : ∀ r ∈ records, writable r) :
      parseFile convert (fileOf (records.map fields)) = .ok (records, []) :=
    parseFile_fileOf (fun r hr => (hwrite r (h r hr)).1) fun r hr => (hwrite r (h r hr)).2
  exact ⟨⟨writable_of_parseFile hconvert, hback⟩,
    fun ⟨_, _, h⟩ => writable_of_parseFile hconvert h, fun h => ⟨_, _, hback h⟩⟩

end Files

/-! ## Fields -/

/-- A number that can be printed fits into a field. -/
theorem length_toString_le {n : ℤ} (h : printable n) : (toString n).length ≤ fieldLimit := by
  have hdigits : n.natAbs.repr.length ≤ maxStrDigits :=
    (Python.length_repr_le_iff (by decide)).mpr h
  have hlength : (toString n).length ≤ n.natAbs.repr.length + 1 := by
    cases n with
    | ofNat n => exact Nat.le_succ _
    | negSucc n =>
        show ("-" ++ (n + 1).repr).length ≤ _
        rw [String.length_append]
        exact (Nat.add_comm _ _).le
  have hlimit : maxStrDigits + 1 ≤ fieldLimit := by decide
  omega

/-- The fields of a writable department or job convert, and fit. -/
theorem referenceOfRow_fields {r : ReferenceRecord} (h : r.Writable) :
    referenceOfRow r.fields = some r ∧ ∀ f ∈ r.fields, f.length ≤ fieldLimit := by
  constructor
  · simp only [referenceOfRow, ReferenceRecord.fields, List.getElem?_cons_zero,
      List.getElem?_cons_succ, Option.bind_eq_bind, Option.bind_some, Python.int_toString h.id]
    rfl
  · simpa [ReferenceRecord.fields] using ⟨length_toString_le h.id, h.name⟩

/-- Fields that convert to a department or job are those of a writable one. -/
theorem writable_of_referenceOfRow {row : List String} {r : ReferenceRecord}
    (hlimit : ∀ f ∈ row, f.length ≤ fieldLimit) (h : referenceOfRow row = some r) : r.Writable := by
  rw [referenceOfRow] at h
  simp only [Option.bind_eq_bind, Option.bind_eq_some_iff] at h
  obtain ⟨_, _, id, hid, name, hname, h⟩ := h
  cases h
  exact ⟨Python.int_natAbs_lt hid, hlimit name (List.mem_of_getElem? hname)⟩

/-- The fields of a writable employee convert, and fit. -/
theorem employeeOfRow_fields {r : EmployeeRecord} (h : r.Writable) :
    employeeOfRow r.fields = some r ∧ ∀ f ∈ r.fields, f.length ≤ fieldLimit := by
  constructor
  · have hdate := Python.fromisoformat_isoformat h.hiringDatetime
    simp only [employeeOfRow, EmployeeRecord.fields, List.getElem?_cons_zero,
      List.getElem?_cons_succ, Option.bind_eq_bind, Option.bind_some, Python.int_toString h.id, hdate,
      Python.int_toString h.departmentId, Python.int_toString h.jobId]
    rfl
  · simpa [EmployeeRecord.fields] using ⟨length_toString_le h.id, h.name,
      (Python.length_isoformat_le r.hiringDatetime).trans (by decide),
      length_toString_le h.departmentId, length_toString_le h.jobId⟩

/-- Fields that convert to an employee are those of a writable one. -/
theorem writable_of_employeeOfRow {row : List String} {r : EmployeeRecord}
    (hlimit : ∀ f ∈ row, f.length ≤ fieldLimit) (h : employeeOfRow row = some r) : r.Writable := by
  rw [employeeOfRow] at h
  simp only [Option.bind_eq_bind, Option.bind_eq_some_iff] at h
  obtain ⟨_, _, id, hid, name, hname, _, _, date, hdate, _, _, department, hdepartment, _, _, job,
    hjob, h⟩ := h
  cases h
  exact ⟨Python.int_natAbs_lt hid, hlimit name (List.mem_of_getElem? hname),
    Python.valid_of_fromisoformat hdate, Python.int_natAbs_lt hdepartment,
    Python.int_natAbs_lt hjob⟩

/-! ## The parsers -/

/-- The lists of records that the parsers return are those whose records are all writable, and each
of them is read back from its own file. -/
theorem parsers_read_records_back :
    ReadsBack parseDepartments ReferenceRecord.fields ReferenceRecord.Writable ∧
      ReadsBack parseJobs ReferenceRecord.fields ReferenceRecord.Writable ∧
      ReadsBack parseEmployees EmployeeRecord.fields EmployeeRecord.Writable := by
  have hreference : ReadsBack (parseFile referenceOfRow) ReferenceRecord.fields
      ReferenceRecord.Writable :=
    readsBack_parseFile (fun _ => referenceOfRow_fields) fun _ _ => writable_of_referenceOfRow
  exact ⟨hreference, hreference,
    readsBack_parseFile (fun _ => employeeOfRow_fields) fun _ _ => writable_of_employeeOfRow⟩

end HiringService
