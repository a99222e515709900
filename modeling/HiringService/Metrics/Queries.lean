import HiringService.Models
import Mathlib.Data.List.Dedup
import Mathlib.Data.List.Sort
import Mathlib.Data.Rat.Init

/-!
# The two analytics queries

`hires_by_quarter.sql.jinja`, rendered with `_QUARTERS`, and `departments_above_mean.sql`, as
functions of a database state. `EXTRACT` reads an instant in UTC and `AVG` is the exact mean.
-/

namespace HiringService

/-- A value in a result row. -/
inductive Value
  | int (n : ℤ)
  | str (s : String)
  deriving DecidableEq

/-- A result row, `dict(zip(columns, row))`. -/
abbrev Row := List (String × Value)

/-! ## Dates -/

/-- The year, month and day of an instant. -/
def dateOf (instant : ℤ) : ℕ × ℕ × ℕ :=
  Python.ofOrdinal (instant / Python.microsPerDay + 719163).toNat

/-- `EXTRACT(YEAR FROM e.hiring_datetime)`. -/
def EmployeeRow.year (e : EmployeeRow) : ℕ := (dateOf e.hiringDatetime).1

/-- `EXTRACT(MONTH FROM e.hiring_datetime)`. -/
def EmployeeRow.month (e : EmployeeRow) : ℕ := (dateOf e.hiringDatetime).2.1

/-- The employees that both queries select. -/
def hiredIn2021 (db : Db) : List EmployeeRow := db.employees.filter fun e => e.year = 2021

/-! ## Hires by quarter -/

/-- A quarter of the template. -/
structure Quarter where
  name : String
  monthStart : ℕ
  monthEnd : ℕ

/-- `_QUARTERS`. -/
def quarters : List Quarter :=
  [⟨"Q1", 1, 3⟩, ⟨"Q2", 4, 6⟩, ⟨"Q3", 7, 9⟩, ⟨"Q4", 10, 12⟩]

/-- The `BETWEEN` of a quarter. -/
def Quarter.contains (q : Quarter) (month : ℕ) : Bool := q.monthStart ≤ month ∧ month ≤ q.monthEnd

/-- A row of the query: the names and the count of every quarter. -/
structure HiresByQuarterRow where
  department : String
  job : String
  hires : List (String × ℕ)
  deriving DecidableEq

/-- The row as the client returns it. -/
def HiresByQuarterRow.toRow (r : HiresByQuarterRow) : Row :=
  [("department", .str r.department), ("job", .str r.job)] ++
    r.hires.map fun q => (q.1, .int q.2)

/-- The joined rows: department name, job name and employee. -/
def joinNames (db : Db) : List ((String × String) × EmployeeRow) :=
  (hiredIn2021 db).flatMap fun e =>
    (db.departments.filter fun d => e.departmentId = d.id).flatMap fun d =>
      (db.jobs.filter fun j => e.jobId = j.id).map fun j => ((d.name, j.name), e)

/-- The order of `ORDER BY d.department, j.job`. -/
def namesLe (a b : String × String) : Prop := a.1 < b.1 ∨ (a.1 = b.1 ∧ ¬ b.2 < a.2)

instance : DecidableRel namesLe := fun a b => by unfold namesLe; infer_instance

/-- The rows of the hires-by-quarter query. -/
def hiresByQuarter (db : Db) : List HiresByQuarterRow :=
  let joined := joinNames db
  (((joined.map Prod.fst).dedup).insertionSort namesLe).map fun names =>
    { department := names.1
      job := names.2
      hires := quarters.map fun q =>
        (q.name, (joined.filter fun r => r.1 = names ∧ q.contains r.2.month).length) }

/-! ## Departments above the mean -/

/-- A row of the query. -/
structure DepartmentHires where
  id : ℤ
  department : String
  hired : ℕ
  deriving DecidableEq

/-- The row as the client returns it. -/
def DepartmentHires.toRow (r : DepartmentHires) : Row :=
  [("id", .int r.id), ("department", .str r.department), ("hired", .int r.hired)]

/-- The common table expression `dept_hires`. -/
def deptHires (db : Db) : List DepartmentHires :=
  let joined := (hiredIn2021 db).flatMap fun e =>
    (db.departments.filter fun d => e.departmentId = d.id).map fun d => (d.id, d.name)
  joined.dedup.map fun g => ⟨g.1, g.2, joined.count g⟩

/-- `AVG(hired)` over `dept_hires`, with 0 where SQL has `NULL` for no rows. -/
def meanHires (rows : List DepartmentHires) : ℚ :=
  ((rows.map DepartmentHires.hired).sum : ℚ) / (rows.length : ℚ)

/-- The rows of the departments-above-mean query. -/
def departmentsAboveMean (db : Db) : List DepartmentHires :=
  let rows := deptHires db
  (rows.filter fun r => meanHires rows < (r.hired : ℚ)).insertionSort fun a b => b.hired ≤ a.hired

/-! ## Results -/

/-- The two endpoints. -/
inductive Metric
  | hiresByQuarter
  | departmentsAboveMean
  deriving DecidableEq

/-- The result of the query of an endpoint. -/
def Metric.rows (db : Db) : Metric → List Row
  | .hiresByQuarter => (HiringService.hiresByQuarter db).map HiresByQuarterRow.toRow
  | .departmentsAboveMean => (HiringService.departmentsAboveMean db).map DepartmentHires.toRow

/-- `CACHE_KEY_HIRES_BY_QUARTER` and `CACHE_KEY_DEPARTMENTS_ABOVE_MEAN`. -/
def Metric.cacheKey : Metric → String
  | .hiresByQuarter => "hiring:metrics:hires_by_quarter"
  | .departmentsAboveMean => "hiring:metrics:departments_above_mean"

/-- The endpoints have different keys. -/
theorem cacheKey_injective {metric metric' : Metric} (h : metric.cacheKey = metric'.cacheKey) :
    metric = metric' := by
  cases metric <;> cases metric' <;> first | rfl | exact absurd h (by decide)

end HiringService
