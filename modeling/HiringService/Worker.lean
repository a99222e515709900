import HiringService.UseCases

/-!
# The background worker

`ProcessEmployeesChunkWorker` and its helpers: it downloads the file of a batch, parses it, writes
the records in chunks, each in bulk or row by row, and finalizes the batch. An exception on the way
marks the batch as failed and is raised again.
-/

namespace HiringService

open Effect (Program)

/-- `download_file`. -/
def downloadFile (key : ObjectKey) : Prog Bytes := do
  let chunks : List Bytes ← call (.streamFile key)
  return chunks.flatten

/-- `iter_chunks`. Python's `range` refuses a step of 0 and is empty for a negative one. -/
def iterChunks {α : Type} (items : List α) (size : ℤ) : Except Exn (List (List α)) :=
  match size with
  | .ofNat 0 => .error (.valueError "range() arg 3 must not be zero")
  | .ofNat (n + 1) =>
      .ok ((List.range ((items.length + n) / (n + 1))).map fun i =>
        (items.drop (i * (n + 1))).take (n + 1))
  | .negSucc _ => .ok []

/-! ## Writing the records -/

section

variable (batchId : BatchId)

/-- The body of the loop of `_write_row_by_row`. -/
def writeRow (errors : List String) (record : EmployeeRecord) : Prog (List String) :=
  Program.tryExcept
    (do
      Uow.beginNested
      Uow.employeesAdd record batchId
      Uow.commit
      return errors)
    fun exc => do
      if exc.isOperational then
        Uow.rollback
        raiseTranslated exc
      else
        Uow.rollbackToSavepoint
        return errors ++ [record.entry]

/-- `_write_row_by_row`. -/
def writeRowByRow (records : List EmployeeRecord) : Prog (List String) :=
  records.foldlM (writeRow batchId) []

/-- The `try` of `write_employees`: `true` when the bulk insert was committed. -/
def writeBulk (records : List EmployeeRecord) : Prog Bool :=
  Program.tryExcept
    (do
      Uow.employeesBulkInsert records batchId
      Uow.commit
      return true)
    fun exc => do
      Uow.rollback
      if exc.isOperational then raiseTranslated exc else return false

/-- `write_employees`. -/
def writeEmployees (records : List EmployeeRecord) : Prog (List String) := do
  if ← writeBulk batchId records then return [] else writeRowByRow batchId records

/-- The chunk loop of `_process`, from the errors collected so far. -/
def writeChunks (errors : List String) (chunks : List (List EmployeeRecord)) :
    Prog (List String) :=
  chunks.foldlM
    (fun errors chunk => do
      let chunkErrors ← writeEmployees batchId chunk
      return errors ++ chunkErrors)
    errors

/-- `write_employees` over `iter_chunks(records, size)`: the errors collected so far, and then those
of the chunks. -/
def writeRecords (size : ℤ) (errors : List String) (records : List EmployeeRecord) :
    Prog (List String) := do
  let chunks ← Program.lift (iterChunks records size)
  writeChunks batchId errors chunks

/-! ## The end of a batch -/

/-- The transaction of `finalize_batch`. -/
def completeBatch (errors : List String) : Prog Unit := do
  Uow.updateStatus batchId .completed (some errors)
  Uow.commit

/-- `cache_client.delete(key=settings.METRICS_CACHE_KEYS)`. -/
def invalidateMetrics : Prog Unit := call (.cacheDelete metricsCacheKeys)

/-- `finalize_batch`. -/
def finalizeBatch (errors : List String) : Prog Unit := do
  completeBatch batchId errors
  invalidateMetrics

/-- `mark_batch_failed`. -/
def markBatchFailed : Prog Unit :=
  Program.tryExcept
    (do
      Uow.rollback
      Uow.updateStatus batchId .failed none
      Uow.commit)
    fun _ => Uow.rollback

/-! ## The worker -/

variable (cfg : Settings)

/-- The part of `_process` that writes employees; it returns all the errors of the file. -/
def ingestFile : Prog (List String) := do
  let raw ← downloadFile (employeesKey cfg batchId)
  let (records, parseErrors) ← Program.lift (parseEmployees raw)
  writeRecords batchId cfg.employeeChunkSize parseErrors records

/-- `_process`. -/
def process : Prog Unit := do
  let allErrors ← ingestFile batchId cfg
  finalizeBatch batchId allErrors

/-- `stream_and_process`. -/
def streamAndProcess : Prog Unit :=
  Program.tryExcept (process batchId cfg) fun exc => do
    markBatchFailed batchId
    throw exc

end

end HiringService
