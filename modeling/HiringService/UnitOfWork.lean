import HiringService.World

/-!
# The unit of work

The repositories and `SqlUnitOfWork` over one session, each method as a program of the calls it
makes. `bulk_insert` and `add` send the same kind of statement: an `INSERT` with the rows of the
records.
-/

namespace HiringService.Uow

/-- `SqlBatchRepository.add`. -/
def batchAdd (batchId : BatchId) (status : IngestionBatchStatus) : Prog Unit :=
  call (.statement (.addBatch batchId status))

/-- `SqlBatchRepository.update_status`; the row gets `errors or []`. -/
def updateStatus (batchId : BatchId) (status : IngestionBatchStatus)
    (errors : Option (List String)) : Prog Unit :=
  call (.statement (.updateStatus batchId status (errors.getD [])))

/-- `SqlBatchRepository.get`. -/
def batchGet (batchId : BatchId) : Prog (Option IngestionBatch) :=
  call (.batchGet batchId)

/-- `bulk_insert` of the repository of a reference table. -/
def referenceBulkInsert (t : ReferenceTable) (records : List ReferenceRecord) (batchId : BatchId) :
    Prog Unit :=
  call (.statement (.insertReference t (records.map (ReferenceRecord.toRow batchId))))

/-- `add` of the repository of a reference table. -/
def referenceAdd (t : ReferenceTable) (record : ReferenceRecord) (batchId : BatchId) : Prog Unit :=
  call (.statement (.insertReference t [record.toRow batchId]))

/-- `SqlEmployeeRepository.bulk_insert`. -/
def employeesBulkInsert (records : List EmployeeRecord) (batchId : BatchId) : Prog Unit :=
  call (.statement (.insertEmployees (records.map (EmployeeRecord.values batchId))))

/-- `SqlEmployeeRepository.add`. -/
def employeesAdd (record : EmployeeRecord) (batchId : BatchId) : Prog Unit :=
  call (.statement (.insertEmployees [record.values batchId]))

/-- `SqlUnitOfWork.commit`. -/
def commit : Prog Unit := call .commit

/-- `SqlUnitOfWork.rollback`. -/
def rollback : Prog Unit := call .rollback

/-- `SqlUnitOfWork.begin_nested`. -/
def beginNested : Prog Unit := call .beginNested

/-- `SqlUnitOfWork.rollback_to_savepoint`. -/
def rollbackToSavepoint : Prog Unit := call .rollbackToSavepoint

end HiringService.Uow
