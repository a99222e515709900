import HiringService.UnitOfWork

/-!
# Use cases and routes

The requests of the service: the synchronous ingestion of departments and jobs, the upload of an
employees file, the status poll and the two metrics endpoints. The two synchronous ingestions run
the same code on different tables.

`uuid4()` is a parameter of the use cases that call it.
-/

namespace HiringService

open Effect (Program)

/-- The settings that the environment of the process may change. -/
structure Settings where
  storageBucket : String
  employeeChunkSize : ℤ
  batchTimeoutSeconds : ℤ

/-- `METRICS_CACHE_KEYS`. -/
def metricsCacheKeys : List String :=
  ["hiring:metrics:hires_by_quarter", "hiring:metrics:departments_above_mean"]

/-- `METRICS_CACHE_TTL`. -/
def metricsCacheTtl : ℕ := 3600 * 8

/-- The handler `except OperationalError as exc: raise translate_db_error(exc)`. -/
def raiseTranslated {α : Type} (exc : Exn) : Prog α := do
  let translated ← Program.lift (translateDbError exc)
  throw translated

/-! ## Synchronous ingestion -/

/-- `IngestionResponse`. -/
structure IngestionResponse where
  createdCount : ℕ
  errors : List String
  deriving DecidableEq

namespace IngestReference

variable (t : ReferenceTable) (batchId : BatchId)

/-- The bulk path: the batch and all its rows in one transaction. -/
def bulk (records : List ReferenceRecord) : Prog IngestionResponse := do
  Uow.batchAdd batchId .pending
  Uow.referenceBulkInsert t records batchId
  Uow.updateStatus batchId .completed none
  Uow.commit
  return ⟨records.length, []⟩

/-- The handlers of the bulk path: an outage is raised, anything else goes to the fallback. -/
def bulkFailed (exc : Exn) : Prog (Option IngestionResponse) := do
  Uow.rollback
  if exc.isOperational then raiseTranslated exc else return none

/-- One record of the fallback, in a savepoint of its own: the count of created rows and the
errors. -/
def insertRecord (acc : ℕ × List String) (record : ReferenceRecord) : Prog (ℕ × List String) :=
  Program.tryExcept
    (do
      Uow.beginNested
      Uow.referenceAdd t record batchId
      return (acc.1 + 1, acc.2))
    fun exc => do
      if exc.isOperational then raiseTranslated exc
      else
        Uow.rollbackToSavepoint
        return (acc.1, acc.2 ++ [record.entry])

/-- The end of the fallback: the batch is committed if a row was created. -/
def commitCreated (okCount : ℕ) : Prog Unit :=
  if okCount = 0 then return ()
  else do
    Uow.updateStatus batchId .completed none
    Uow.commit

/-- The fallback: row by row, in one transaction. -/
def fallback (records : List ReferenceRecord) : Prog IngestionResponse := do
  Uow.batchAdd batchId .pending
  let created ← records.foldlM (insertRecord t batchId) (0, [])
  commitCreated batchId created.1
  return ⟨created.1, created.2⟩

/-- `execute`. -/
def execute (records : List ReferenceRecord) : Prog IngestionResponse := do
  let response ← Program.tryExcept (do return some (← bulk t batchId records)) bulkFailed
  match response with
  | some response => return response
  | none => fallback t batchId records

end IngestReference

/-- `IngestDepartmentsUseCase.execute`. -/
def ingestDepartments (batchId : BatchId) (records : List DepartmentRecord) :
    Prog IngestionResponse :=
  IngestReference.execute .departments batchId records

/-- `IngestJobsUseCase.execute`. -/
def ingestJobs (batchId : BatchId) (records : List JobRecord) : Prog IngestionResponse :=
  IngestReference.execute .jobs batchId records

/-! ### Routes -/

/-- `_MAX_ROWS`. -/
def maxRows : ℕ := 1000

/-- `validate_batch`. -/
def validateBatch {α : Type} (records : List α) : Except Exn Unit :=
  if records = [] then .error (.http 422 "No valid rows found")
  else if maxRows < records.length then
    .error (.http 422 ("Max " ++ toString maxRows ++ " rows per request"))
  else .ok ()

/-- `get_department_records` and `get_job_records`, for a parser. -/
def getRecords {α : Type} (parse : Bytes → Except Exn (List α × List String)) (file : Bytes) :
    Except Exn (List α × List String) := do
  let (records, parseErrors) ← parse file
  validateBatch records
  return (records, parseErrors)

/-- A synchronous upload: the dependency that parses the file, then the use case. -/
def uploadReference (t : ReferenceTable)
    (parse : Bytes → Except Exn (List ReferenceRecord × List String)) (batchId : BatchId)
    (file : Bytes) : Prog IngestionResponse := do
  let (records, parseErrors) ← Program.lift (getRecords parse file)
  let response ← IngestReference.execute t batchId records
  return { response with errors := response.errors ++ parseErrors }

/-- `POST /ingest/departments`. -/
def uploadDepartments (batchId : BatchId) (file : Bytes) : Prog IngestionResponse :=
  uploadReference .departments parseDepartments batchId file

/-- `POST /ingest/jobs`. -/
def uploadJobs (batchId : BatchId) (file : Bytes) : Prog IngestionResponse :=
  uploadReference .jobs parseJobs batchId file

/-- The parser of a reference table. -/
def parseReference : ReferenceTable → Bytes → Except Exn (List ReferenceRecord × List String)
  | .departments => parseDepartments
  | .jobs => parseJobs

/-- The upload to a reference table. -/
def upload : ReferenceTable → BatchId → Bytes → Prog IngestionResponse
  | .departments => uploadDepartments
  | .jobs => uploadJobs

/-- The use case of a reference table. -/
def ingest : ReferenceTable → BatchId → List ReferenceRecord → Prog IngestionResponse
  | .departments => ingestDepartments
  | .jobs => ingestJobs

/-! ## Employees -/

/-- The object of a batch: `f"employees/{batch_id}.csv"` in `STORAGE_BUCKET`. -/
def employeesKey (cfg : Settings) (batchId : BatchId) : ObjectKey :=
  ⟨cfg.storageBucket, "employees/" ++ toString batchId ++ ".csv"⟩

/-- No two batches share an object. -/
theorem employeesKey_injective {cfg : Settings} {b b' : BatchId}
    (h : employeesKey cfg b = employeesKey cfg b') : b = b' := by
  have hkey : toString b = toString b' := by
    simpa [employeesKey] using congrArg ObjectKey.key h
  have hdigits := congrArg (fun id : String => Nat.ofDigitChars 10 id.toList 0) hkey
  simpa [Nat.toString_eq_repr] using hdigits

/-- `IngestEmployeesUseCase.execute`; the route then schedules the worker of the batch. -/
def ingestEmployees (cfg : Settings) (batchId : BatchId) (file : Bytes) : Prog BatchId := do
  call (.uploadFile (employeesKey cfg batchId) file)
  Uow.batchAdd batchId .pending
  Uow.commit
  return batchId

/-! ## Status -/

/-- `BatchStatusResponse`. -/
structure BatchStatusResponse where
  batchId : BatchId
  status : IngestionBatchStatus
  errors : List String
  deriving DecidableEq

/-- `_is_stale` at time `now`. -/
def isStale (cfg : Settings) (createdAt now : ℕ) : Bool :=
  cfg.batchTimeoutSeconds * 1000000 < (now : ℤ) - createdAt

/-- Reading an attribute of a batch that has expired with a commit loads the row again. -/
def refreshBatch (batchId : BatchId) : Prog IngestionBatch := do
  match ← Uow.batchGet batchId with
  | some batch => return batch
  | none => throw .objectDeleted

/-- The timeout branch of the poll. -/
def failStale (batchId : BatchId) : Prog BatchStatusResponse := do
  Uow.updateStatus batchId .failed none
  Uow.commit
  let batch ← refreshBatch batchId
  return ⟨batch.id, .failed, batch.errors.getD []⟩

/-- The response from the row that the poll has read. -/
def IngestionBatch.response (batch : IngestionBatch) : BatchStatusResponse :=
  ⟨batch.id, batch.status, batch.errors.getD []⟩

/-- `GetBatchStatusUseCase.execute`. -/
def getBatchStatus (cfg : Settings) (batchId : BatchId) : Prog BatchStatusResponse := do
  match ← Uow.batchGet batchId with
  | none => throw (.batchNotFound batchId)
  | some batch =>
      if batch.status = .pending then
        let now : ℕ ← call .now
        if isStale cfg batch.createdAt now then failStale batchId
        else return batch.response
      else return batch.response

/-! ## Metrics -/

/-- What a metrics request does when the cache has no value. -/
def computeMetric (metric : Metric) : Prog (List Row) := do
  let result : List Row ← Program.tryExcept (call (.query metric)) fun exc =>
    throw (.analyticsUnavailable exc)
  call (.cacheSet metric.cacheKey result metricsCacheTtl)
  return result

/-- `execute` of the two metrics use cases. -/
def getMetric (metric : Metric) : Prog (List Row) := do
  let cached : Option (List Row) ← call (.cacheGet metric.cacheKey)
  match cached with
  | some result => return result
  | none => computeMetric metric

/-- `HiresByQuarterUseCase.execute`. -/
def getHiresByQuarter : Prog (List Row) := getMetric .hiresByQuarter

/-- `DepartmentsAboveMeanUseCase.execute`. -/
def getDepartmentsAboveMean : Prog (List Row) := getMetric .departmentsAboveMean

end HiringService
