import HiringService.Metrics.Queries
import HiringService.Relational.Aggregate

/-!
# The joins of the queries

In a consistent database every employee has one department and one job, so both joins add columns to
the selected employees and neither drops nor repeats one.
-/

namespace HiringService

/-! ## Consistent databases -/

/-- The department and the job of the row exist. -/
def EmployeeRow.Anchored (db : Db) (e : EmployeeRow) : Prop :=
  Key.reference .departments e.departmentId ∈ db.keys ∧ Key.reference .jobs e.jobId ∈ db.keys

/-- Primary keys are unique, and employees refer to departments and jobs that exist. -/
structure Db.Consistent (db : Db) : Prop where
  keys : db.keys.Nodup
  employees : ∀ e ∈ db.employees, e.Anchored db

/-- The row of a reference table with the id, or a nameless one if there is none. -/
def Db.lookup (db : Db) (t : ReferenceTable) (id : ℤ) : ReferenceRow :=
  ((db.reference t).find? fun r => r.id = id).getD ⟨id, "", default⟩

/-- The names in the department and job columns of an employee. -/
def Db.namesOf (db : Db) (e : EmployeeRow) : String × String :=
  ((db.lookup .departments e.departmentId).name, (db.lookup .jobs e.jobId).name)

section

variable {db : Db} {t : ReferenceTable} {id : ℤ}

/-- The ids of departments, and of jobs, are distinct. -/
theorem reference_ids_nodup (hkeys : db.keys.Nodup) (t : ReferenceTable) :
    ((db.reference t).map ReferenceRow.id).Nodup := by
  have hmap : ((db.reference t).map fun r => Key.reference t r.id).Nodup := by
    cases t with
    | departments => exact hkeys.of_append_left.of_append_left.of_append_right
    | jobs => exact hkeys.of_append_left.of_append_right
  rw [← Function.comp_def (Key.reference t) ReferenceRow.id, ← List.map_map] at hmap
  exact hmap.of_map _

/-- The row of an id that exists. -/
theorem lookup_spec (h : Key.reference t id ∈ db.keys) :
    db.lookup t id ∈ db.reference t ∧ (db.lookup t id).id = id := by
  obtain ⟨row, hrow, hid⟩ := List.mem_map.mp ((mem_keys_reference db).mp h)
  have hsome : ((db.reference t).find? fun r => r.id = id).isSome :=
    List.find?_isSome.mpr ⟨row, hrow, by simpa using hid⟩
  obtain ⟨found, hfound⟩ := Option.isSome_iff_exists.mp hsome
  rw [Db.lookup, hfound, Option.getD_some]
  exact ⟨List.mem_of_find?_eq_some hfound, by simpa using List.find?_some hfound⟩

/-- With unique keys, a row is the one that is found under its id. -/
theorem lookup_eq_of_mem (hkeys : db.keys.Nodup) {row : ReferenceRow} (hrow : row ∈ db.reference t) :
    db.lookup t row.id = row := by
  have hkey : Key.reference t row.id ∈ db.keys :=
    (mem_keys_reference db).mpr (List.mem_map.mpr ⟨row, hrow, rfl⟩)
  obtain ⟨hmem, hid⟩ := lookup_spec hkey
  exact List.inj_on_of_nodup_map (reference_ids_nodup hkeys t) hmem hrow hid

/-- New rows of a table do not change what is found under an id that was there. -/
theorem lookup_append {db' : Db} {rows : List ReferenceRow}
    (hrows : db'.reference t = db.reference t ++ rows) (h : Key.reference t id ∈ db.keys) :
    db'.lookup t id = db.lookup t id := by
  obtain ⟨row, hrow, hid⟩ := List.mem_map.mp ((mem_keys_reference db).mp h)
  have hsome : ((db.reference t).find? fun r => r.id = id).isSome :=
    List.find?_isSome.mpr ⟨row, hrow, by simpa using hid⟩
  obtain ⟨found, hfound⟩ := Option.isSome_iff_exists.mp hsome
  rw [Db.lookup, Db.lookup, hrows, List.find?_append, hfound, Option.some_or]

/-! ## The joined rows -/

/-- Who was hired in 2021. -/
theorem mem_hiredIn2021 {e : EmployeeRow} :
    e ∈ hiredIn2021 db ↔ e ∈ db.employees ∧ e.year = 2021 := by
  simp [hiredIn2021]

/-- An employee has a department. -/
theorem Db.Consistent.department (h : db.Consistent) {e : EmployeeRow} (he : e ∈ hiredIn2021 db) :
    db.lookup .departments e.departmentId ∈ db.departments ∧
      (db.lookup .departments e.departmentId).id = e.departmentId :=
  lookup_spec (h.employees e (mem_hiredIn2021.mp he).1).1

/-- An employee has a job. -/
theorem Db.Consistent.job (h : db.Consistent) {e : EmployeeRow} (he : e ∈ hiredIn2021 db) :
    db.lookup .jobs e.jobId ∈ db.jobs ∧ (db.lookup .jobs e.jobId).id = e.jobId :=
  lookup_spec (h.employees e (mem_hiredIn2021.mp he).1).2

/-- The rows of the hires-by-quarter query before they are grouped. -/
theorem joinNames_eq (h : db.Consistent) :
    joinNames db = (hiredIn2021 db).map fun e => (db.namesOf e, e) := by
  have hjoin := Relational.join_flatMap (reference_ids_nodup h.keys .departments)
    (fun e he => h.department he) fun e d =>
      (db.jobs.filter fun j => e.jobId = j.id).map fun j => ((d.name, j.name), e)
  exact hjoin.trans (Relational.join_map (reference_ids_nodup h.keys .jobs) (fun e he => h.job he) _)

/-- The rows of `dept_hires` before they are grouped. -/
theorem joinDepartments_eq (h : db.Consistent) :
    ((hiredIn2021 db).flatMap fun e => (db.departments.filter fun d => e.departmentId = d.id).map
      fun d => (d.id, d.name)) =
      (hiredIn2021 db).map fun e =>
        (e.departmentId, (db.lookup .departments e.departmentId).name) := by
  refine (Relational.join_map (reference_ids_nodup h.keys .departments)
    (fun e he => h.department he) fun _ d => (d.id, d.name)).trans ?_
  refine List.map_congr_left fun e he => ?_
  rw [(h.department he).2]

/-! ## New departments and jobs -/

/-- `db'` is `db` with more departments and jobs; its batches may differ. -/
structure Db.Extends (db db' : Db) : Prop where
  employees : db'.employees = db.employees
  reference : ∀ t, ∃ rows, db'.reference t = db.reference t ++ rows

/-- A database extends itself. -/
theorem Db.Extends.refl (db : Db) : db.Extends db :=
  ⟨rfl, fun _ => ⟨[], (List.append_nil _).symm⟩⟩

/-- Extensions compose. -/
theorem Db.Extends.trans {db' db'' : Db} (h : db.Extends db') (h' : db'.Extends db'') :
    db.Extends db'' := by
  refine ⟨h'.employees.trans h.employees, fun t => ?_⟩
  obtain ⟨rows, hrows⟩ := h.reference t
  obtain ⟨rows', hrows'⟩ := h'.reference t
  exact ⟨rows ++ rows', by rw [hrows', hrows, List.append_assoc]⟩

/-- An employee keeps the names of its department and its job. -/
theorem Db.Extends.lookup {db' : Db} (h : db.Extends db') {t : ReferenceTable} {id : ℤ}
    (hkey : Key.reference t id ∈ db.keys) : db'.lookup t id = db.lookup t id := by
  obtain ⟨rows, hrows⟩ := h.reference t
  exact lookup_append hrows hkey

/-- New reference rows hire nobody. -/
theorem Db.Extends.hiredIn2021 {db' : Db} (h : db.Extends db') :
    HiringService.hiredIn2021 db' = HiringService.hiredIn2021 db := by
  rw [HiringService.hiredIn2021, h.employees]
  rfl

/-- Neither query sees departments or jobs without employees. -/
theorem Db.Extends.rows {db' : Db} (hext : db.Extends db') (h : db.Consistent) (h' : db'.Consistent)
    (metric : Metric) : metric.rows db' = metric.rows db := by
  have hanchored : ∀ e ∈ HiringService.hiredIn2021 db, e.Anchored db := fun e he =>
    h.employees e (mem_hiredIn2021.mp he).1
  cases metric with
  | hiresByQuarter =>
      have hjoin : joinNames db' = joinNames db := by
        rw [joinNames_eq h', joinNames_eq h, hext.hiredIn2021]
        refine List.map_congr_left fun e he => ?_
        obtain ⟨hdepartment, hjob⟩ := hanchored e he
        rw [Db.namesOf, hext.lookup hdepartment, hext.lookup hjob]
        rfl
      rw [Metric.rows, Metric.rows, hiresByQuarter, hjoin]
      rfl
  | departmentsAboveMean =>
      have hjoin : deptHires db' = deptHires db := by
        rw [deptHires, deptHires, joinDepartments_eq h', joinDepartments_eq h, hext.hiredIn2021]
        have hnames : (HiringService.hiredIn2021 db).map (fun e =>
            (e.departmentId, (db'.lookup .departments e.departmentId).name)) =
            (HiringService.hiredIn2021 db).map fun e =>
              (e.departmentId, (db.lookup .departments e.departmentId).name) := by
          refine List.map_congr_left fun e he => ?_
          rw [hext.lookup (hanchored e he).1]
        rw [hnames]
      rw [Metric.rows, Metric.rows, departmentsAboveMean, hjoin]
      rfl

end

/-! ## A sample -/

/-- The database of the samples: of two departments of one name, one has hired two employees in 2021
and the other one. -/
def hiringDb : Db where
  batches := [⟨7, .completed, some [], 0⟩]
  departments := [⟨1, "A", 7⟩, ⟨2, "A", 7⟩]
  jobs := [⟨1, "J", 7⟩]
  employees := [⟨1, "X", 1609459200000000, 1, 1, 7⟩, ⟨2, "Y", 1619827200000000, 1, 1, 7⟩,
    ⟨3, "Z", 1609459200000000, 2, 1, 7⟩, ⟨4, "W", 1640995200000000, 2, 1, 7⟩]

theorem hiringDb_consistent : hiringDb.Consistent where
  keys := by decide
  employees := by
    simp only [EmployeeRow.Anchored]
    decide

end HiringService
