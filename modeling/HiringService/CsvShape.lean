import HiringService.CsvRows

/-!
# The documented shape of a row

The README gives the columns of each file: `id,department`, `id,job`, and `id,name,hiring_datetime,
department_id,job_id`. The parsers look their columns up by index and never ask how many there are.
A row with too few of them raises `IndexError`, but a row with more is converted without its surplus
fields, so a name with an unquoted comma is stored truncated.
-/

namespace HiringService

/-- A row shape: the number of columns, and the conversion of a row that has just these columns. -/
structure RowShape (α : Type) where
  width : ℕ
  convert : List String → Option α
  length_eq : ∀ {row record}, convert row = some record → row.length = width

namespace RowShape

variable {α : Type} (shape : RowShape α)

/-- The row has the shape, and then at least one more field. -/
def Surplus (row : List String) : Prop :=
  ∃ columns field rest, row = columns ++ field :: rest ∧ (shape.convert columns).isSome

/-- The conversion that looks at the columns and ignores what follows. -/
def lookup (row : List String) : Option α := shape.convert (row.take shape.width)

variable {shape} {row : List String}

/-- A row of the shape is its own columns. -/
theorem lookup_of_convert {record : α} (h : shape.convert row = some record) :
    shape.lookup row = some record := by
  rw [lookup, List.take_of_length_le (shape.length_eq h).le]
  exact h

/-- What is looked up in a row with surplus fields is what the row gives without them. -/
theorem lookup_append {columns : List String} {record : α}
    (h : shape.convert columns = some record) (fields : List String) :
    shape.lookup (columns ++ fields) = some record := by
  rw [lookup, ← shape.length_eq h, List.take_left]
  exact h

theorem convert_of_surplus (h : shape.Surplus row) : shape.convert row = none := by
  obtain ⟨columns, field, rest, rfl, hcolumns⟩ := h
  obtain ⟨record, hrecord⟩ := Option.isSome_iff_exists.mp hcolumns
  rw [Option.eq_none_iff_forall_ne_some]
  intro record' hrow
  have hlong := shape.length_eq hrow
  rw [List.length_append, shape.length_eq hrecord, List.length_cons] at hlong
  omega

/-- Looking columns up accepts the documented shape and nothing else, unless the row has surplus
fields. -/
theorem lookup_eq_convert_iff : shape.lookup row = shape.convert row ↔ ¬ shape.Surplus row := by
  constructor
  · intro heq hsurplus
    rw [convert_of_surplus hsurplus] at heq
    obtain ⟨columns, field, rest, rfl, hcolumns⟩ := hsurplus
    obtain ⟨record, hrecord⟩ := Option.isSome_iff_exists.mp hcolumns
    rw [lookup_append hrecord] at heq
    cases heq
  · intro hsurplus
    rcases hlookup : shape.lookup row with _ | record
    · rw [eq_comm, Option.eq_none_iff_forall_ne_some]
      intro record hrow
      cases hlookup.symm.trans (lookup_of_convert hrow)
    · have hcolumns : shape.convert (row.take shape.width) = some record := hlookup
      rcases hrest : row.drop shape.width with _ | ⟨field, rest⟩
      · rw [← List.take_append_drop shape.width row, hrest, List.append_nil, hcolumns]
      · refine absurd ⟨_, field, rest, ?_, Option.isSome_of_eq_some hcolumns⟩ hsurplus
        rw [← hrest, List.take_append_drop]

end RowShape

/-! ## The shapes of the three files -/

/-- `id,department` and `id,job`. -/
def referenceShape : RowShape ReferenceRecord where
  width := 2
  convert
    | [id, name] => (Python.int id).map fun id => ⟨id, name⟩
    | _ => none
  length_eq := by
    intro row record h
    split at h
    · rfl
    · cases h

/-- `id,name,hiring_datetime,department_id,job_id`. -/
def employeeShape : RowShape EmployeeRecord where
  width := 5
  convert
    | [id, name, hiringDatetime, departmentId, jobId] => do
        let id ← Python.int id
        let hiringDatetime ← Python.fromisoformat hiringDatetime
        let departmentId ← Python.int departmentId
        let jobId ← Python.int jobId
        return ⟨id, name, hiringDatetime, departmentId, jobId⟩
    | _ => none
  length_eq := by
    intro row record h
    split at h
    · rfl
    · cases h

/-- `parse_departments` and `parse_jobs` look up the first two fields. -/
theorem referenceOfRow_eq_lookup (row : List String) :
    referenceOfRow row = referenceShape.lookup row := by
  rcases row with _ | ⟨id, _ | ⟨name, rest⟩⟩
  · rfl
  · show (Python.int id).bind (fun _ => none) = none
    rcases Python.int id with _ | id <;> rfl
  · show (Python.int id).bind _ = (Python.int id).map _
    rcases Python.int id with _ | id <;> rfl

/-- `parse_employees` looks up the first five fields. -/
theorem employeeOfRow_eq_lookup (row : List String) :
    employeeOfRow row = employeeShape.lookup row := by
  rcases row with _ | ⟨id, _ | ⟨name, _ | ⟨hired, _ | ⟨department, _ | ⟨job, rest⟩⟩⟩⟩⟩
  · rfl
  · show (Python.int id).bind _ = none
    rcases Python.int id with _ | id <;> rfl
  · show (Python.int id).bind _ = none
    rcases Python.int id with _ | id <;> rfl
  · show (Python.int id).bind (fun id => (Python.fromisoformat hired).bind fun _ => none) = none
    rcases Python.int id with _ | id
    · rfl
    · rcases Python.fromisoformat hired with _ | hired <;> rfl
  · show (Python.int id).bind (fun id => (Python.fromisoformat hired).bind fun _ =>
      (Python.int department).bind fun _ => none) = none
    rcases Python.int id with _ | id
    · rfl
    · rcases Python.fromisoformat hired with _ | hired
      · rfl
      · rcases Python.int department with _ | department <;> rfl
  · rfl

/-! ## The parsers -/

section Files

variable {α : Type} {shape : RowShape α}

theorem length_filterMap_convert_le (shape : RowShape α) (rows : List (List String)) :
    (rows.filterMap shape.convert).length ≤ (rows.filterMap shape.lookup).length := by
  induction rows with
  | nil => exact le_rfl
  | cons row rows ih =>
      rcases hconvert : shape.convert row with _ | record
      · rw [List.filterMap_cons_none hconvert]
        refine ih.trans (List.Sublist.length_le ?_)
        exact (List.sublist_cons_self row rows).filterMap _
      · rw [List.filterMap_cons_some hconvert,
          List.filterMap_cons_some (RowShape.lookup_of_convert hconvert), List.length_cons,
          List.length_cons]
        omega

/-- The records of a file are those of the documented rows, exactly if no row has surplus fields:
a row with surplus fields gives a record too many. -/
theorem filterMap_lookup_iff (shape : RowShape α) (rows : List (List String)) :
    rows.filterMap shape.lookup = rows.filterMap shape.convert ↔
      ∀ row ∈ rows, ¬ shape.Surplus row := by
  constructor
  · intro h
    induction rows with
    | nil => simp
    | cons row rows ih =>
        rcases hconvert : shape.convert row with _ | record
        · rw [List.filterMap_cons_none hconvert] at h
          rcases hlookup : shape.lookup row with _ | record
          · rw [List.filterMap_cons_none hlookup] at h
            refine List.forall_mem_cons.mpr ⟨?_, ih h⟩
            exact RowShape.lookup_eq_convert_iff.mp (hlookup.trans hconvert.symm)
          · rw [List.filterMap_cons_some hlookup] at h
            have hlength := congrArg List.length h
            have hle := length_filterMap_convert_le shape rows
            rw [List.length_cons] at hlength
            omega
        · have hlookup := RowShape.lookup_of_convert hconvert
          rw [List.filterMap_cons_some hconvert, List.filterMap_cons_some hlookup] at h
          refine List.forall_mem_cons.mpr ⟨?_, ih (List.cons_eq_cons.mp h).2⟩
          exact RowShape.lookup_eq_convert_iff.mp (hlookup.trans hconvert.symm)
  · intro h
    refine List.filterMap_congr fun row hrow => ?_
    exact RowShape.lookup_eq_convert_iff.mpr (h row hrow)

/-- Conversions that agree on the rows of a file. -/
theorem parseRows_congr {f g : List String → Option α} {rows : List (List String)}
    (h : ∀ row ∈ rows, f row = g row) (i : ℕ) : parseRows f i rows = parseRows g i rows := by
  induction rows generalizing i with
  | nil => rfl
  | cons row rows ih =>
      have htail := ih (fun row hrow => h row (List.mem_cons_of_mem _ hrow)) (i + 1)
      rw [parseRows, parseRows, htail, h row List.mem_cons_self]

/-- A parser that looks its columns up does what the documented shape says, exactly if no row of
the file has surplus fields. -/
theorem parseFile_lookup_iff (shape : RowShape α) (raw : Bytes) :
    parseFile shape.lookup raw = parseFile shape.convert raw ↔
      ∀ rows, readFile raw = .ok rows → ∀ row ∈ rows, ¬ shape.Surplus row := by
  rw [parseFile, parseFile]
  rcases readFile raw with e | rows
  · exact iff_of_true rfl fun _ h => by cases h
  constructor
  · rintro h _ ⟨⟩
    have hrecords := congrArg Prod.fst (Except.ok.inj h)
    rw [parseRows_eq, parseRows_eq] at hrecords
    exact (filterMap_lookup_iff shape rows).mp hrecords
  · intro h
    refine congrArg Except.ok (parseRows_congr (fun row hrow => ?_) 1)
    exact RowShape.lookup_eq_convert_iff.mpr (h rows rfl row hrow)

end Files

/-- The parsers accept just the documented rows, and report all others as invalid, exactly if none
of the rows has surplus fields behind the documented columns. -/
theorem parsers_follow_shape_iff (row : List String) (raw : Bytes) :
    (referenceOfRow row = referenceShape.convert row ↔ ¬ referenceShape.Surplus row) ∧
    (employeeOfRow row = employeeShape.convert row ↔ ¬ employeeShape.Surplus row) ∧
    (parseDepartments raw = parseFile referenceShape.convert raw ↔
      ∀ rows, readFile raw = .ok rows → ∀ row ∈ rows, ¬ referenceShape.Surplus row) ∧
    (parseJobs raw = parseFile referenceShape.convert raw ↔
      ∀ rows, readFile raw = .ok rows → ∀ row ∈ rows, ¬ referenceShape.Surplus row) ∧
    (parseEmployees raw = parseFile employeeShape.convert raw ↔
      ∀ rows, readFile raw = .ok rows → ∀ row ∈ rows, ¬ employeeShape.Surplus row) := by
  have hreference : referenceOfRow = referenceShape.lookup := funext referenceOfRow_eq_lookup
  have hemployee : employeeOfRow = employeeShape.lookup := funext employeeOfRow_eq_lookup
  rw [parseDepartments, parseJobs, parseEmployees, hreference, hemployee]
  exact ⟨RowShape.lookup_eq_convert_iff, RowShape.lookup_eq_convert_iff,
    parseFile_lookup_iff _ raw, parseFile_lookup_iff _ raw, parseFile_lookup_iff _ raw⟩

/-- The department `1,Sales, Marketing` is stored as `Sales`, and a sixth field of an employee is
dropped. -/
theorem surplus_fields_are_dropped :
    let department := Python.encode "1,Sales, Marketing".toList
    let employee := Python.encode "1,Ann,2021-01-01,1,1,9".toList
    parseDepartments department = .ok ([⟨1, "Sales"⟩], []) ∧
      parseFile referenceShape.convert department = .ok ([], ["row 1: invalid"]) ∧
      parseEmployees employee = .ok ([⟨1, "Ann", ⟨1609459200000000, none⟩, 1, 1⟩], []) ∧
      parseFile employeeShape.convert employee = .ok ([], ["row 1: invalid"]) ∧
      ¬ ∀ raw, parseDepartments raw = parseFile referenceShape.convert raw := by
  refine ⟨rfl, rfl, rfl, rfl, fun hall => ?_⟩
  have hstored := Except.ok.inj (hall (Python.encode "1,Sales, Marketing".toList))
  cases congrArg (List.length ∘ Prod.fst) hstored

end HiringService
