import HiringService.Worker

/-!
# Which calls the programs make

For each program, the calls that it can make, whatever the replies are. A batch is only ever written
by the request that has created its id, by the worker of its file and by the polls that time it out.
-/

namespace HiringService

open Effect (Program)

/-- The calls that only concern the session. -/
def Op.OfSession : Op → Prop
  | .commit | .rollback | .beginNested | .rollbackToSavepoint => True
  | _ => False

/-- The calls of a synchronous ingestion under the batch `u`. -/
def Op.OfIngestion (t : ReferenceTable) (u : BatchId) : Op → Prop
  | .statement (.addBatch id status) => id = u ∧ status = .pending
  | .statement (.insertReference t' rows) => t' = t ∧ ∀ r ∈ rows, r.batchId = u
  | .statement (.updateStatus id status errors) => id = u ∧ status = .completed ∧ errors = []
  | op => op.OfSession

/-- The calls of the upload of an employees file under the batch `u`. -/
def Op.OfUpload (cfg : Settings) (u : BatchId) : Op → Prop
  | .uploadFile key _ => key = employeesKey cfg u
  | .statement (.addBatch id status) => id = u ∧ status = .pending
  | .commit => True
  | _ => False

/-- The calls by which the worker of batch `b` writes the employees of its file. -/
def Op.OfFile (b : BatchId) : Op → Prop
  | .statement (.insertEmployees rows) => ∀ r ∈ rows, r.batchId = b
  | .streamFile _ => True
  | op => op.OfSession

/-- The calls by which the worker of batch `b` writes. -/
def Op.OfWriter (b : BatchId) : Op → Prop
  | .statement (.updateStatus id _ _) => id = b
  | .statement (.insertEmployees rows) => ∀ r ∈ rows, r.batchId = b
  | .streamFile _ => True
  | op => op.OfSession

/-- The calls of the worker of batch `b`. -/
def Op.OfWorker (b : BatchId) (op : Op) : Prop :=
  op.OfWriter b ∨ op = .cacheDelete metricsCacheKeys

/-- The calls of a poll of batch `b`. -/
def Op.OfPoll (b : BatchId) : Op → Prop
  | .batchGet id => id = b
  | .statement (.updateStatus id status errors) => id = b ∧ status = .failed ∧ errors = []
  | .now | .commit => True
  | _ => False

/-- The calls of a metrics request. -/
def Op.OfMetric (metric : Metric) : Op → Prop
  | .cacheGet key => key = metric.cacheKey
  | .query m => m = metric
  | .cacheSet key _ _ => key = metric.cacheKey
  | _ => False

/-- Raising is no call. -/
theorem uses_raiseTranslated {α : Type} {allowed : Op → Prop} (exc : Exn) :
    (raiseTranslated exc : Prog α).Uses allowed :=
  (Program.uses_lift _).bind fun _ => trivial

/-! ## Synchronous ingestion -/

section Ingestion

variable {t : ReferenceTable} {u : BatchId}

/-- The rows of a reference insert carry the batch of its ingestion. -/
theorem uses_referenceInsert (records : List ReferenceRecord) :
    (Uow.referenceBulkInsert t records u).Uses (Op.OfIngestion t u) := by
  refine Program.uses_request ⟨rfl, fun r hr => ?_⟩
  obtain ⟨record, -, rfl⟩ := List.mem_map.mp hr
  rfl

/-- An ingestion only completes its own batch, and without errors. -/
theorem uses_completed : (Uow.updateStatus u .completed none).Uses (Op.OfIngestion t u) :=
  Program.uses_request ⟨rfl, rfl, rfl⟩

/-- The bulk path: the batch, its rows, its completion and a commit. -/
theorem uses_bulk (records : List ReferenceRecord) :
    (IngestReference.bulk t u records).Uses (Op.OfIngestion t u) :=
  Program.Uses.bind (Program.uses_request ⟨rfl, rfl⟩) fun _ =>
    Program.Uses.bind (uses_referenceInsert records) fun _ =>
      Program.Uses.bind uses_completed fun _ =>
        Program.Uses.bind (Program.uses_request trivial) fun _ => trivial

/-- What follows a failed bulk insert only concerns the session. -/
theorem uses_bulkFailed (exc : Exn) :
    (IngestReference.bulkFailed exc).Uses (Op.OfIngestion t u) := by
  refine Program.Uses.bind (Program.uses_request trivial) fun _ => ?_
  show (if exc.isOperational = true then _ else _ : Prog _).Uses _
  by_cases hexc : exc.isOperational = true
  · rw [if_pos hexc]
    exact uses_raiseTranslated exc
  · rw [if_neg hexc]
    trivial

/-- A row of the fallback: a savepoint, the row, and at most a step back. -/
theorem uses_insertRecord (acc : ℕ × List String) (record : ReferenceRecord) :
    (IngestReference.insertRecord t u acc record).Uses (Op.OfIngestion t u) := by
  refine Program.Uses.tryExcept ?_ fun exc => ?_
  · exact Program.Uses.bind (Program.uses_request trivial) fun _ =>
      Program.Uses.bind (uses_referenceInsert [record]) fun _ => trivial
  · show (if exc.isOperational = true then _ else _ : Prog _).Uses _
    by_cases hexc : exc.isOperational = true
    · rw [if_pos hexc]
      exact uses_raiseTranslated exc
    · rw [if_neg hexc]
      exact Program.Uses.bind (Program.uses_request trivial) fun _ => trivial

/-- The fallback completes its batch and commits, if it has created anything. -/
theorem uses_commitCreated (okCount : ℕ) :
    (IngestReference.commitCreated u okCount).Uses (Op.OfIngestion t u) := by
  unfold IngestReference.commitCreated
  by_cases hcount : okCount = 0
  · rw [if_pos hcount]
    trivial
  · rw [if_neg hcount]
    exact Program.Uses.bind uses_completed fun _ => Program.uses_request trivial

/-- A synchronous ingestion inserts into its table only, and under its batch. -/
theorem uses_ingestion (records : List ReferenceRecord) :
    (IngestReference.execute t u records).Uses (Op.OfIngestion t u) := by
  refine Program.Uses.bind (Program.Uses.tryExcept ?_ uses_bulkFailed) fun response => ?_
  · exact Program.Uses.bind (uses_bulk records) fun _ => trivial
  · cases response with
    | some response => trivial
    | none =>
        exact Program.Uses.bind (Program.uses_request ⟨rfl, rfl⟩) fun _ =>
          Program.Uses.bind (Program.Uses.foldlM uses_insertRecord records _) fun created =>
            Program.Uses.bind (uses_commitCreated created.1) fun _ => trivial

end Ingestion

/-! ## Employees -/

/-- An upload stores its file and commits its batch. -/
theorem uses_ingestEmployees (cfg : Settings) (u : BatchId) (file : Bytes) :
    (ingestEmployees cfg u file).Uses (Op.OfUpload cfg u) :=
  Program.Uses.bind (Program.uses_request rfl) fun _ =>
    Program.Uses.bind (Program.uses_request ⟨rfl, rfl⟩) fun _ =>
      Program.Uses.bind (Program.uses_request trivial) fun _ => trivial

section Worker

variable {b : BatchId} {cfg : Settings}

/-- Writing the employees is part of what the worker writes. -/
theorem Op.OfFile.ofWriter {op : Op} (h : op.OfFile b) : op.OfWriter b := by
  cases op with
  | statement s =>
      cases s with
      | insertEmployees rows => exact h
      | _ => exact h.elim
  | _ => exact h

/-- What writes deletes nothing from the cache. -/
theorem Op.OfWriter.ne_cacheDelete {op : Op} (h : op.OfWriter b) (keys : List String) :
    op ≠ .cacheDelete keys := by
  rintro rfl
  exact h

/-- The rows of an employees insert carry the batch of the worker. -/
theorem uses_employeesInsert (records : List EmployeeRecord) :
    (Uow.employeesBulkInsert records b).Uses (Op.OfFile b) := by
  refine Program.uses_request fun r hr => ?_
  obtain ⟨record, -, rfl⟩ := List.mem_map.mp hr
  rfl

/-- A row of the fallback: a savepoint, the row and a commit, or a step back. -/
theorem uses_writeRow (errors : List String) (record : EmployeeRecord) :
    (writeRow b errors record).Uses (Op.OfFile b) := by
  refine Program.Uses.tryExcept ?_ fun exc => ?_
  · exact Program.Uses.bind (Program.uses_request trivial) fun _ =>
      Program.Uses.bind (uses_employeesInsert [record]) fun _ =>
        Program.Uses.bind (Program.uses_request trivial) fun _ => trivial
  · show (if exc.isOperational = true then _ else _ : Prog _).Uses _
    by_cases hexc : exc.isOperational = true
    · rw [if_pos hexc]
      exact Program.Uses.bind (Program.uses_request trivial) fun _ => uses_raiseTranslated exc
    · rw [if_neg hexc]
      exact Program.Uses.bind (Program.uses_request trivial) fun _ => trivial

/-- The bulk insert of a chunk, with its commit or rollback. -/
theorem uses_writeBulk (records : List EmployeeRecord) :
    (writeBulk b records).Uses (Op.OfFile b) := by
  refine Program.Uses.tryExcept ?_ fun exc => ?_
  · exact Program.Uses.bind (uses_employeesInsert records) fun _ =>
      Program.Uses.bind (Program.uses_request trivial) fun _ => trivial
  · refine Program.Uses.bind (Program.uses_request trivial) fun _ => ?_
    show (if exc.isOperational = true then _ else _ : Prog _).Uses _
    by_cases hexc : exc.isOperational = true
    · rw [if_pos hexc]
      exact uses_raiseTranslated exc
    · rw [if_neg hexc]
      trivial

/-- A chunk is written in bulk, or else row by row. -/
theorem uses_writeEmployees (records : List EmployeeRecord) :
    (writeEmployees b records).Uses (Op.OfFile b) := by
  refine Program.Uses.bind (uses_writeBulk records) fun done => ?_
  cases done with
  | true => trivial
  | false => exact Program.Uses.foldlM uses_writeRow records []

/-- The worker reads its file and writes the employees, chunk by chunk. -/
theorem uses_ingestFile : (ingestFile b cfg).Uses (Op.OfFile b) := by
  refine Program.Uses.bind ?_ fun raw => ?_
  · exact Program.Uses.bind (Program.uses_request trivial) fun _ => trivial
  refine Program.Uses.bind (Program.uses_lift _) fun parsed => ?_
  refine Program.Uses.bind (Program.uses_lift _) fun chunks => ?_
  refine Program.Uses.foldlM (fun errors chunk => ?_) chunks parsed.2
  exact Program.Uses.bind (uses_writeEmployees chunk) fun _ => trivial

/-- Completing the batch is an update of its row and a commit. -/
theorem uses_completeBatch (errors : List String) : (completeBatch b errors).Uses (Op.OfWriter b) :=
  Program.Uses.bind (Program.uses_request rfl) fun _ => Program.uses_request trivial

/-- So is marking it as failed, after a rollback. -/
theorem uses_markBatchFailed : (markBatchFailed b).Uses (Op.OfWriter b) := by
  refine Program.Uses.tryExcept ?_ fun _ => Program.uses_request trivial
  exact Program.Uses.bind (Program.uses_request trivial) fun _ =>
    Program.Uses.bind (Program.uses_request rfl) fun _ => Program.uses_request trivial

/-- The worker writes its employees and its batch, and deletes the keys of the metrics. -/
theorem uses_streamAndProcess : (streamAndProcess b cfg).Uses (Op.OfWorker b) := by
  have hwriter : ∀ op : Op, op.OfWriter b → op.OfWorker b := fun _ => Or.inl
  refine Program.Uses.tryExcept ?_ fun exc => ?_
  · exact Program.Uses.bind (uses_ingestFile.mono fun op h => hwriter op h.ofWriter) fun errors =>
      Program.Uses.bind ((uses_completeBatch errors).mono hwriter) fun _ =>
        Program.uses_request (Or.inr rfl)
  · exact Program.Uses.bind (uses_markBatchFailed.mono hwriter) fun _ => trivial

end Worker

/-! ## Reading requests -/

/-- A poll reads its batch and the clock, and at most times the batch out. -/
theorem uses_getBatchStatus (cfg : Settings) (b : BatchId) :
    (getBatchStatus cfg b).Uses (Op.OfPoll b) := by
  refine Program.Uses.bind (Program.uses_request rfl) fun found => ?_
  cases found with
  | none => trivial
  | some batch =>
      show (if batch.status = .pending then _ else _ : Prog _).Uses _
      by_cases hpending : batch.status = .pending
      · rw [if_pos hpending]
        refine Program.Uses.bind (Program.uses_request trivial) fun now => ?_
        show (if isStale cfg batch.createdAt now = true then _ else _ : Prog _).Uses _
        by_cases hstale : isStale cfg batch.createdAt now = true
        · rw [if_pos hstale]
          refine Program.Uses.bind (Program.uses_request ⟨rfl, rfl, rfl⟩) fun _ => ?_
          refine Program.Uses.bind (Program.uses_request trivial) fun _ => ?_
          refine Program.Uses.bind (Program.Uses.bind (Program.uses_request rfl) fun found => ?_)
            fun _ => trivial
          cases found <;> trivial
        · rw [if_neg hstale]
          trivial
      · rw [if_neg hpending]
        trivial

/-- A metrics request reads and sets the key of its metric, and makes its query. -/
theorem uses_getMetric (metric : Metric) : (getMetric metric).Uses (Op.OfMetric metric) := by
  refine Program.Uses.bind (Program.uses_request rfl) fun cached => ?_
  cases cached with
  | some result => trivial
  | none =>
      refine Program.Uses.bind ?_ fun result => ?_
      · exact Program.Uses.tryExcept (Program.uses_request rfl) fun _ => trivial
      · exact Program.Uses.bind (Program.uses_request rfl) fun _ => trivial

end HiringService
