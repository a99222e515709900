import HiringService.Python.Datetime
import Mathlib.Data.List.Perm.Basic

/-!
# Records, tables and writes

The records that the CSV parsers build, the rows of the four tables of `models.py` and the writes
that the repositories make. The `departments` and `jobs` tables have the same shape, so both are
lists of `ReferenceRow`, selected by a `ReferenceTable`.

Columns that no function reads are left out: the audit column `created_at` of the three data
tables.
-/

namespace HiringService

/-- The `uuid.UUID` of a batch. -/
abbrev BatchId := ℕ

/-- `IngestionBatchStatus`. -/
inductive IngestionBatchStatus
  | pending
  | completed
  | failed
  deriving DecidableEq

/-! ## Records -/

/-- The two tables that employees refer to. -/
inductive ReferenceTable
  | departments
  | jobs
  deriving DecidableEq

/-- A record with an id and a name. -/
structure ReferenceRecord where
  id : ℤ
  name : String
  deriving DecidableEq

/-- `DepartmentRecord`, whose name is the column `department`. -/
abbrev DepartmentRecord := ReferenceRecord

/-- `JobRecord`, whose name is the column `job`. -/
abbrev JobRecord := ReferenceRecord

/-- `EmployeeRecord`. -/
structure EmployeeRecord where
  id : ℤ
  name : String
  hiringDatetime : Python.Datetime
  departmentId : ℤ
  jobId : ℤ
  deriving DecidableEq

/-- The error entry of a record that was not inserted: `f"{record.id}:{record.name}"`. -/
def idName (id : ℤ) (name : String) : String := toString id ++ ":" ++ name

/-- The error entry of a department or a job. -/
def ReferenceRecord.entry (r : ReferenceRecord) : String := idName r.id r.name

/-- The error entry of an employee. -/
def EmployeeRecord.entry (r : EmployeeRecord) : String := idName r.id r.name

/-! ## Rows -/

/-- A row of `ingestion_batches`. `createdAt` counts microseconds. -/
structure IngestionBatch where
  id : BatchId
  status : IngestionBatchStatus
  errors : Option (List String)
  createdAt : ℕ
  deriving DecidableEq

/-- A row of `departments` or of `jobs`. -/
structure ReferenceRow where
  id : ℤ
  name : String
  batchId : BatchId
  deriving DecidableEq

/-- A row of `employees`. A `timestamptz` column holds an instant. -/
structure EmployeeRow where
  id : ℤ
  name : String
  hiringDatetime : ℤ
  departmentId : ℤ
  jobId : ℤ
  batchId : BatchId
  deriving DecidableEq

/-- What an `INSERT` sends for an employee: the row, and the offset from UTC that the text of its
date ends with, in microseconds. -/
structure EmployeeValues extends EmployeeRow where
  offset : Option ℤ
  deriving DecidableEq

/-- The row of a department or a job. -/
def ReferenceRecord.toRow (batchId : BatchId) (r : ReferenceRecord) : ReferenceRow :=
  ⟨r.id, r.name, batchId⟩

/-- The row of an employee; a date without an offset is read in the session's time zone, UTC. -/
def EmployeeRecord.toRow (batchId : BatchId) (r : EmployeeRecord) : EmployeeRow :=
  ⟨r.id, r.name, r.hiringDatetime.instant, r.departmentId, r.jobId, batchId⟩

/-- The values that are sent for an employee. -/
def EmployeeRecord.values (batchId : BatchId) (r : EmployeeRecord) : EmployeeValues :=
  ⟨r.toRow batchId, r.hiringDatetime.offset⟩

/-- A database state; rows are in the order of insertion. -/
structure Db where
  batches : List IngestionBatch
  departments : List ReferenceRow
  jobs : List ReferenceRow
  employees : List EmployeeRow
  deriving DecidableEq

/-- The rows of a reference table. -/
def Db.reference (db : Db) : ReferenceTable → List ReferenceRow
  | .departments => db.departments
  | .jobs => db.jobs

/-- The row of a batch. -/
def Db.batch (db : Db) (id : BatchId) : Option IngestionBatch :=
  db.batches.find? fun b => b.id = id

/-- The batch is completed with the given errors. -/
def Db.CompletedWith (db : Db) (batchId : BatchId) (errors : List String) : Prop :=
  ∃ batch, db.batch batchId = some batch ∧ batch.status = .completed ∧ batch.errors = some errors

/-! ## Writes -/

/-- What one statement writes. -/
inductive Write
  | insertBatch (batch : IngestionBatch)
  | updateBatch (id : BatchId) (status : IngestionBatchStatus) (errors : List String)
  | insertReference (table : ReferenceTable) (rows : List ReferenceRow)
  | insertEmployees (rows : List EmployeeValues)
  deriving DecidableEq

/-- Append rows to a reference table. -/
def Db.appendReference (db : Db) (rows : List ReferenceRow) : ReferenceTable → Db
  | .departments => { db with departments := db.departments ++ rows }
  | .jobs => { db with jobs := db.jobs ++ rows }

/-- `UPDATE ingestion_batches SET status, errors WHERE id`. -/
def IngestionBatch.update (id : BatchId) (status : IngestionBatchStatus) (errors : List String)
    (b : IngestionBatch) : IngestionBatch :=
  if b.id = id then { b with status := status, errors := some errors } else b

/-- The effect of a write. -/
def Db.apply (db : Db) : Write → Db
  | .insertBatch batch => { db with batches := db.batches ++ [batch] }
  | .updateBatch id status errors =>
      { db with batches := db.batches.map (IngestionBatch.update id status errors) }
  | .insertReference table rows => db.appendReference rows table
  | .insertEmployees rows =>
      { db with employees := db.employees ++ rows.map EmployeeValues.toEmployeeRow }

/-! ## Primary keys -/

/-- A primary key, with the table that it belongs to. -/
inductive Key
  | batch (id : BatchId)
  | reference (table : ReferenceTable) (id : ℤ)
  | employee (id : ℤ)
  deriving DecidableEq

/-- The keys that a write claims. -/
def Write.keys : Write → List Key
  | .insertBatch batch => [.batch batch.id]
  | .updateBatch .. => []
  | .insertReference table rows => rows.map fun row => .reference table row.id
  | .insertEmployees rows => rows.map fun row => .employee row.id

/-- The keys of a database state. -/
def Db.keys (db : Db) : List Key :=
  db.batches.map (fun b => .batch b.id) ++ db.departments.map (fun r => .reference .departments r.id)
    ++ db.jobs.map (fun r => .reference .jobs r.id) ++ db.employees.map fun r => .employee r.id

/-! ## What writes leave -/

section Lemmas

/-- The values sent for records hold the rows of the records. -/
@[simp] theorem map_toEmployeeRow_values (batchId : BatchId) (records : List EmployeeRecord) :
    (records.map (EmployeeRecord.values batchId)).map EmployeeValues.toEmployeeRow =
      records.map (EmployeeRecord.toRow batchId) :=
  List.map_map

variable (db : Db)

@[simp] theorem apply_insertBatch_reference (batch : IngestionBatch) (t : ReferenceTable) :
    (db.apply (.insertBatch batch)).reference t = db.reference t := by cases t <;> rfl

@[simp] theorem apply_updateBatch_reference (id : BatchId) (status : IngestionBatchStatus)
    (errors : List String) (t : ReferenceTable) :
    (db.apply (.updateBatch id status errors)).reference t = db.reference t := by cases t <;> rfl

@[simp] theorem apply_insertEmployees_reference (rows : List EmployeeValues) (t : ReferenceTable) :
    (db.apply (.insertEmployees rows)).reference t = db.reference t := by cases t <;> rfl

@[simp] theorem apply_insertReference_reference (rows : List ReferenceRow) (t t' : ReferenceTable) :
    (db.apply (.insertReference t rows)).reference t' =
      db.reference t' ++ if t = t' then rows else [] := by
  cases t <;> cases t' <;> simp [Db.apply, Db.appendReference, Db.reference]

@[simp] theorem apply_insertReference_batches (rows : List ReferenceRow) (t : ReferenceTable) :
    (db.apply (.insertReference t rows)).batches = db.batches := by cases t <;> rfl

@[simp] theorem apply_insertReference_employees (rows : List ReferenceRow) (t : ReferenceTable) :
    (db.apply (.insertReference t rows)).employees = db.employees := by cases t <;> rfl

@[simp] theorem IngestionBatch.update_id (id : BatchId) (status : IngestionBatchStatus)
    (errors : List String) (b : IngestionBatch) : (b.update id status errors).id = b.id := by
  unfold IngestionBatch.update
  split <;> rfl

/-- An update reaches the row of its batch. -/
theorem apply_updateBatch_batch_self (id : BatchId) (status : IngestionBatchStatus)
    (errors : List String) : (db.apply (.updateBatch id status errors)).batch id =
      (db.batch id).map fun b => { b with status := status, errors := some errors } := by
  have hpred : (fun b : IngestionBatch => decide (b.id = id)) ∘
      IngestionBatch.update id status errors = fun b => decide (b.id = id) :=
    funext fun b => by simp
  simp only [Db.batch, Db.apply, List.find?_map, hpred]
  refine Option.map_congr fun b hb => ?_
  have hid : b.id = id := by simpa using List.find?_some hb
  simp [IngestionBatch.update, hid]

/-- An update leaves the rows of the other batches. -/
theorem apply_updateBatch_batch_of_ne {id id' : BatchId} (h : id' ≠ id)
    (status : IngestionBatchStatus) (errors : List String) :
    (db.apply (.updateBatch id status errors)).batch id' = db.batch id' := by
  have hpred : (fun b : IngestionBatch => decide (b.id = id')) ∘
      IngestionBatch.update id status errors = fun b => decide (b.id = id') :=
    funext fun b => by simp
  simp only [Db.batch, Db.apply, List.find?_map, hpred]
  refine (Option.map_congr fun b hb => ?_).trans Option.map_id'
  have hid : b.id = id' := by simpa using List.find?_some hb
  simp [IngestionBatch.update, hid, h]

/-- A batch has a row exactly when its key is taken. -/
theorem batch_isSome_iff {id : BatchId} : (db.batch id).isSome ↔ Key.batch id ∈ db.keys := by
  simp [Db.batch, Db.keys, List.find?_isSome]

theorem mem_keys_reference {t : ReferenceTable} {id : ℤ} :
    Key.reference t id ∈ db.keys ↔ id ∈ (db.reference t).map ReferenceRow.id := by
  cases t <;> simp [Db.keys, Db.reference]

theorem mem_keys_employee {id : ℤ} :
    Key.employee id ∈ db.keys ↔ id ∈ db.employees.map EmployeeRow.id := by
  simp [Db.keys]

theorem mem_keys_batch {id : BatchId} :
    Key.batch id ∈ db.keys ↔ id ∈ db.batches.map IngestionBatch.id := by
  simp [Db.keys]

/-- A write adds exactly the keys that it claims. -/
theorem keys_apply (w : Write) : ((db.apply w).keys).Perm (db.keys ++ w.keys) := by
  rw [List.perm_iff_count]
  intro k
  cases w with
  | insertBatch batch =>
      simp only [Db.keys, Db.apply, Write.keys, List.map_append, List.map_cons, List.map_nil,
        List.count_append]
      omega
  | updateBatch id status errors =>
      have hids : (db.batches.map (IngestionBatch.update id status errors)).map
          (fun b => Key.batch b.id) = db.batches.map fun b => Key.batch b.id := by
        simp
      simp only [Db.keys, Db.apply, Write.keys, hids, List.append_nil]
  | insertReference t rows =>
      cases t <;>
        simp only [Db.keys, Db.apply, Db.appendReference, Write.keys, List.map_append,
          List.count_append] <;>
        omega
  | insertEmployees rows =>
      have hkeys : (rows.map EmployeeValues.toEmployeeRow).map (fun r => Key.employee r.id) =
          rows.map fun r => Key.employee r.id := List.map_map
      simp only [Db.keys, Db.apply, Write.keys, List.map_append, List.append_assoc, hkeys]

end Lemmas

end HiringService
