import HiringService.Models
import HiringService.Python.Csv
import HiringService.Python.Re

/-!
# Exceptions

The exceptions that reach the code from SQLAlchemy, from Python and from its own modules
(`core/exceptions`), and `translate_db_error`, which turns those of the database into domain errors.
-/

namespace HiringService

/-- An `Exception`. -/
inductive Exn
  /-- `sqlalchemy.exc.OperationalError`. -/
  | operational (message : String)
  /-- `sqlalchemy.exc.IntegrityError`. -/
  | integrity (message : String)
  /-- A value that the column cannot store. -/
  | data (message : String)
  /-- The session waits for a rollback. -/
  | pendingRollback
  /-- The savepoint is not open any more. -/
  | resourceClosed
  /-- The row of a refreshed object is gone. -/
  | objectDeleted
  /-- `RecursionError`. -/
  | recursion
  | unicodeDecode
  | csv (e : Python.Csv.Error)
  | valueError (message : String)
  | http (status : ℕ) (detail : String)
  | recordConflict (table : String) (recordId : ℤ)
  | recordForeignKey (field value : String)
  | ingestionDbUnavailable (cause : Exn)
  | batchNotFound (batchId : BatchId)
  | analyticsUnavailable (cause : Exn)
  | other (name : String)
  deriving DecidableEq

/-- `isinstance(exc, OperationalError)`. -/
def Exn.isOperational : Exn → Bool
  | .operational _ => true
  | _ => false

/-! ## `db_error_translator` -/

/-- Primary key constraint name → table name. -/
def pkMap : List (String × String) :=
  [("departments_pkey", "departments"), ("jobs_pkey", "jobs"), ("employees_pkey", "employees")]

/-- Foreign key constraint name → field name. -/
def fkMap : List (String × String) :=
  [("employees_department_id_fkey", "department_id"), ("employees_job_id_fkey", "job_id")]

/-- `_parse_constraint`. -/
def parseConstraint (message : String) : String :=
  match Python.Re.search [.text "constraint \"", .any true, .text "\""] message.toList with
  | some group => String.ofList group
  | none => ""

/-- `_parse_fk_value`. -/
def parseFkValue (message : String) : String :=
  match Python.Re.search [.text "Key (", .any false, .text ")=(", .any true, .text ")"]
      message.toList with
  | some group => String.ofList group
  | none => "unknown"

/-- `_parse_pk_id`. -/
def parsePkId (message : String) : Except Exn ℤ :=
  match Python.Re.search [.text "Key (id)=(", .digits true, .text ")"] message.toList with
  | some group =>
      match Python.int (String.ofList group) with
      | some n => .ok n
      | none => .error (.valueError "invalid literal for int()")
  | none => .ok (-1)

/-- `translate_db_error`, which itself raises only when the id it finds is no number for `int`. -/
def translateDbError (exc : Exn) : Except Exn Exn :=
  match exc with
  | .integrity message =>
      let constraint := parseConstraint message
      match pkMap.lookup constraint with
      | some table => return .recordConflict table (← parsePkId message)
      | none =>
          match fkMap.lookup constraint with
          | some field => .ok (.recordForeignKey field (parseFkValue message))
          | none => .ok exc
  | .operational _ => .ok (.ingestionDbUnavailable exc)
  | _ => .ok exc

/-- An `OperationalError` is reported as an unavailable database. -/
theorem translateDbError_of_isOperational {exc : Exn} (h : exc.isOperational = true) :
    translateDbError exc = .ok (.ingestionDbUnavailable exc) := by
  cases exc with
  | operational message => rfl
  | _ => cases h

end HiringService
