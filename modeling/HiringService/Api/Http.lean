import HiringService.Metrics.RowJson
import HiringService.Service

/-!
# The HTTP layer

What the dependencies of a route do before its use case runs, and what is sent for what the use case
returns or raises: the clients are built when they are first asked for, a file is parsed and checked,
and the exception handlers and the middleware have the last word.

A request is seen here as the framework hands it on: its route is found, and its multipart body is
read. Which texts are UUIDs and what is said about a parameter that is missing or invalid is up to
the framework.
-/

namespace HiringService

open Python (Json)

/-! ## Requests and responses -/

/-- A route, with the parameters that the framework has found in the request. -/
inductive Endpoint
  /-- `GET /health`. -/
  | health
  /-- `POST /ingest/departments` and `POST /ingest/jobs`. -/
  | ingest (t : ReferenceTable) (file : Option Bytes)
  /-- `GET /ingest/employees/{batch_id}/status`. -/
  | getBatchStatus (batchId : String)
  /-- `POST /ingest/employees`. -/
  | ingestEmployees (file : Option Bytes)
  /-- `GET /metrics/hires-by-quarter` and `GET /metrics/departments-above-mean`. -/
  | getMetric (metric : Metric)
  deriving DecidableEq

/-- A request, with its header `X-Request-ID`. -/
structure HttpRequest where
  endpoint : Endpoint
  requestId : Option String

/-- The body of a response. -/
inductive Body
  | json (content : Json)
  | text (content : String)

/-- A response, with its header `X-Request-ID`. -/
structure HttpResponse where
  status : ℕ
  body : Body
  requestId : Option String

/-- What a route ends with: a JSON response, or an exception that has no handler. -/
inductive Outcome
  | json (status : ℕ) (content : Json)
  | unhandled

/-- `correlation_id_middleware`. An exception that has no handler passes it, and the server answers
in its own words. -/
def HttpRequest.respond (request : HttpRequest) (uuid : String) : Outcome → HttpResponse
  | .json status content => ⟨status, .json content, some (request.requestId.getD uuid)⟩
  | .unhandled => ⟨500, .text "Internal Server Error", none⟩

/-! ## Errors -/

/-- `BaseError`, without its cause. -/
structure BaseError where
  message : String
  code : String
  context : List (String × Json)
  httpStatus : ℕ

/-- `CacheMisconfiguredError`. -/
def cacheMisconfiguredError (missing : String) : BaseError :=
  ⟨"Cache provider is misconfigured", "CACHE_MISCONFIGURED", [("missing", .str missing)], 500⟩

/-- `StorageMisconfiguredError`. -/
def storageMisconfiguredError (missing : String) : BaseError :=
  ⟨"Storage provider is misconfigured", "STORAGE_MISCONFIGURED", [("missing", .str missing)], 500⟩

/-- `RecordConflictError`. -/
def recordConflictError (table : String) (recordId : ℤ) : BaseError :=
  ⟨"Record " ++ toString recordId ++ " already exists in " ++ table, "RECORD_CONFLICT",
    [("table", .str table), ("id", .int recordId)], 409⟩

/-- `RecordForeignKeyError`. -/
def recordForeignKeyError (field value : String) : BaseError :=
  ⟨"Foreign key violation: " ++ field ++ "=" ++ value ++ " does not exist", "RECORD_FK_VIOLATION",
    [("field", .str field), ("value", .str value)], 422⟩

/-- `IngestionDbUnavailableError`. -/
def ingestionDbUnavailableError : BaseError := ⟨"Database unavailable", "DB_UNAVAILABLE", [], 503⟩

/-- `BatchNotFoundError`. -/
def batchNotFoundError (b : BatchId) : BaseError :=
  ⟨"Batch " ++ toString b ++ " not found", "BATCH_NOT_FOUND", [("batch_id", .str (toString b))], 404⟩

/-- `AnalyticsUnavailableError`. -/
def analyticsUnavailableError : BaseError :=
  ⟨"Analytics engine unavailable, please retry later", "ANALYTICS_UNAVAILABLE", [], 503⟩

/-- What the handlers of the application and of the framework tell apart. -/
inductive HttpError
  | base (e : BaseError)
  | httpException (status : ℕ) (detail : String)
  | requestValidation (detail : Json)
  | unhandled

/-- An exception of a use case. -/
def Exn.toHttp : Exn → HttpError
  | .recordConflict table recordId => .base (recordConflictError table recordId)
  | .recordForeignKey field value => .base (recordForeignKeyError field value)
  | .ingestionDbUnavailable _ => .base ingestionDbUnavailableError
  | .batchNotFound b => .base (batchNotFoundError b)
  | .analyticsUnavailable _ => .base analyticsUnavailableError
  | .http status detail => .httpException status detail
  | _ => .unhandled

/-- The handlers; the first is `base_error_handler`. -/
def HttpError.handle : HttpError → Outcome
  | .base e => .json e.httpStatus
      (.obj [("message", .str e.message), ("code", .str e.code), ("context", .obj e.context)])
  | .httpException status detail => .json status (.obj [("detail", .str detail)])
  | .requestValidation detail => .json 422 (.obj [("detail", detail)])
  | .unhandled => .unhandled

/-! ## Clients -/

/-- The clients that are built once and kept by `lru_cache`. -/
inductive Client
  | cache
  | storage
  | analytics
  deriving DecidableEq

/-- The environment variables that the constructors ask for. -/
structure Environment where
  redisUrl : Option String
  gcsProject : Option String

/-- `if not value`. -/
def isMissing (value : Option String) : Bool := value.getD "" = ""

/-- The constructor of a client. What its library raises, if it does, has no handler. -/
def Client.construct (env : Environment) (fails : Client → Bool) (client : Client) :
    Except HttpError Unit :=
  let connect : Except HttpError Unit := if fails client then .error .unhandled else .ok ()
  match client with
  | .cache =>
      if isMissing env.redisUrl then .error (.base (cacheMisconfiguredError "REDIS_URL")) else connect
  | .storage =>
      if isMissing env.gcsProject then .error (.base (storageMisconfiguredError "GCS_PROJECT"))
      else connect
  | .analytics => connect

/-- Ask for clients: those that are kept afterwards, and what is raised. -/
def getClients (env : Environment) (fails : Client → Bool) :
    List Client → List Client → List Client × Except HttpError Unit
  | [], built => (built, .ok ())
  | client :: clients, built =>
      if client ∈ built then getClients env fails clients built
      else
        match client.construct env fails with
        | .error e => (built, .error e)
        | .ok _ => getClients env fails clients (client :: built)

/-- The clients that a route depends on, in the order in which they are asked for. -/
def Endpoint.clients : Endpoint → List Client
  | .ingestEmployees _ => [.cache, .storage]
  | .getMetric _ => [.analytics, .cache]
  | _ => []

/-! ## Routes -/

/-- The part of the framework that the routes rely on: `uuid.UUID` as the type of a path parameter,
and the complaint about a missing file. -/
structure Framework where
  parseId : String → Except Json BatchId
  missingFile : Json

/-- What has become of a request before its use case: it has ended, or it is admitted, and the errors
of its file are kept for the response. -/
inductive Admission
  | ended (outcome : Outcome)
  | admitted (request : Request) (parseErrors : List String)

/-- The routes up to their use cases. `u` is the id that `uuid4()` returns in the use case. -/
def Endpoint.enter (fw : Framework) (u : BatchId) : Endpoint → Admission
  | .health => .ended (.json 200 (.obj [("status", .str "ok")]))
  | .ingest _ none => .ended (HttpError.requestValidation fw.missingFile).handle
  | .ingest t (some file) =>
      match getRecords (parseReference t) file with
      | .error e => .ended e.toHttp.handle
      | .ok (records, parseErrors) => .admitted (.ingest t u records) parseErrors
  | .getBatchStatus batchId =>
      match fw.parseId batchId with
      | .error detail => .ended (HttpError.requestValidation detail).handle
      | .ok b => .admitted (.getBatchStatus b) []
  | .ingestEmployees none => .ended (HttpError.requestValidation fw.missingFile).handle
  | .ingestEmployees (some file) => .admitted (.ingestEmployees u file) []
  | .getMetric metric => .admitted (.getMetric metric) []

/-- The clients of a route come before its own parameters. -/
def HttpRequest.enter (request : HttpRequest) (env : Environment) (fw : Framework)
    (fails : Client → Bool) (built : List Client) (u : BatchId) : List Client × Admission :=
  match getClients env fails request.endpoint.clients built with
  | (built, .error e) => (built, .ended e.handle)
  | (built, .ok _) => (built, request.endpoint.enter fw u)

/-! ## Response models -/

/-- The value of a status. -/
def IngestionBatchStatus.value : IngestionBatchStatus → String
  | .pending => "pending"
  | .completed => "completed"
  | .failed => "failed"

/-- `list[str]`. -/
def errorsJson (errors : List String) : Json := .arr (errors.map .str)

/-- What is sent for what a use case returns; nothing for a background task. -/
def Response.outcome (parseErrors : List String) : Response → Option Outcome
  | .ingested response => some (.json 200 (.obj
      [("created_count", .int response.createdCount),
        ("errors", errorsJson (response.errors ++ parseErrors))]))
  | .accepted b => some (.json 202 (.obj [("batch_id", .str (toString b))]))
  | .status response => some (.json 200 (.obj
      [("batch_id", .str (toString response.batchId)), ("status", .str response.status.value),
        ("errors", errorsJson response.errors)]))
  | .metric rows => some (.json 200 (rowsJson rows))
  | .processed => none

end HiringService
