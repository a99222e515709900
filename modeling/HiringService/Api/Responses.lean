import HiringService.Api.App
import HiringService.Service.Outcomes
import HiringService.Service.Polls

/-!
# What clients are answered

In every run in which the ports raise none of the errors of the code, every response is one of a
short list for its route. The conflict and the foreign key error of `core/exceptions` are not on it:
no client ever gets 409, and 422 only for what it has sent itself. An outage of the database is a
503 in the synchronous ingestions alone; uploads and polls end in a bare 500, the only response
without the id of its request.
-/

namespace HiringService

open Python (Json)

/-- What a route can end with. -/
inductive Endpoint.Documents (fw : Framework) : Endpoint → Outcome → Prop
  | health : Documents fw .health (.json 200 (.obj [("status", .str "ok")]))
  /-- Every row of the file is counted or reported. -/
  | ingested {t file rows} {n : ℕ} {errors : List String} (hrows : readFile file = .ok rows)
      (hcount : n + errors.length = rows.length) :
      Documents fw (.ingest t (some file)) (.json 200 (.obj
        [("created_count", .int n), ("errors", errorsJson errors)]))
  | noValidRows {t file} : Documents fw (.ingest t (some file))
      (HttpError.httpException 422 "No valid rows found").handle
  | tooManyRows {t file} : Documents fw (.ingest t (some file))
      (HttpError.httpException 422 "Max 1000 rows per request").handle
  | dbUnavailable {t file} : Documents fw (.ingest t (some file))
      (HttpError.base ingestionDbUnavailableError).handle
  | ingestWithoutFile {t} :
      Documents fw (.ingest t none) (HttpError.requestValidation fw.missingFile).handle
  | ingestUnhandled {t file} : Documents fw (.ingest t (some file)) .unhandled
  | accepted {file} (b : BatchId) : Documents fw (.ingestEmployees (some file))
      (.json 202 (.obj [("batch_id", .str (toString b))]))
  | uploadWithoutFile :
      Documents fw (.ingestEmployees none) (HttpError.requestValidation fw.missingFile).handle
  | storageMisconfigured {file} : Documents fw (.ingestEmployees file)
      (HttpError.base (storageMisconfiguredError "GCS_PROJECT")).handle
  | uploadUnhandled {file} : Documents fw (.ingestEmployees file) .unhandled
  | status {batchId b} {status : IngestionBatchStatus} {errors : List String}
      (hid : fw.parseId batchId = .ok b) : Documents fw (.getBatchStatus batchId) (.json 200 (.obj
        [("batch_id", .str (toString b)), ("status", .str status.value),
          ("errors", errorsJson errors)]))
  | notFound {batchId b} (hid : fw.parseId batchId = .ok b) :
      Documents fw (.getBatchStatus batchId) (HttpError.base (batchNotFoundError b)).handle
  | invalidId {batchId detail} (hid : fw.parseId batchId = .error detail) :
      Documents fw (.getBatchStatus batchId) (HttpError.requestValidation detail).handle
  | statusUnhandled {batchId} : Documents fw (.getBatchStatus batchId) .unhandled
  | metric {metric} (rows : List Row) :
      Documents fw (.getMetric metric) (.json 200 (rowsJson rows))
  | analyticsUnavailable {metric} :
      Documents fw (.getMetric metric) (HttpError.base analyticsUnavailableError).handle
  | metricUnhandled {metric} : Documents fw (.getMetric metric) .unhandled
  | cacheMisconfigured {endpoint} (hclient : Client.cache ∈ Endpoint.clients endpoint) :
      Documents fw endpoint (HttpError.base (cacheMisconfiguredError "REDIS_URL")).handle

section Routes

variable {fw : Framework} {env : Environment} {fails : Client → Bool} {u : BatchId}

theorem toHttp_of_not_isDomain {e : Exn} (h : e.isDomain = false) : e.toHttp = .unhandled := by
  cases e with
  | operational _ | integrity _ | data _ | pendingRollback | resourceClosed | objectDeleted | recursion
  | unicodeDecode | csv _ | valueError _ | other _ => rfl
  | _ => cases h

/-- What the constructor of a client raises is documented. -/
theorem Endpoint.documents_of_construct {endpoint : Endpoint} {client : Client} {e : HttpError}
    (hclient : client ∈ endpoint.clients) (h : client.construct env fails = .error e) :
    endpoint.Documents fw e.handle := by
  have hunhandled : endpoint.Documents fw .unhandled := by
    cases endpoint with
    | ingestEmployees file => exact .uploadUnhandled
    | getMetric metric => exact .metricUnhandled
    | _ => cases hclient
  unfold Client.construct at h
  cases client with
  | cache =>
      dsimp only at h
      split_ifs at h
      · cases h
        exact .cacheMisconfigured hclient
      · cases h
        exact hunhandled
  | storage =>
      dsimp only at h
      split_ifs at h
      · cases h
        cases endpoint with
        | ingestEmployees file => exact .storageMisconfigured
        | getMetric metric => exact absurd hclient (by simp [Endpoint.clients])
        | _ => cases hclient
      · cases h
        exact hunhandled
  | analytics =>
      dsimp only at h
      split_ifs at h
      cases h
      exact hunhandled

/-- A route that ends before its use case ends with one of its documented outcomes. -/
theorem Endpoint.documents_of_ended {endpoint : Endpoint} {outcome : Outcome}
    (h : endpoint.enter fw u = .ended outcome) : endpoint.Documents fw outcome := by
  unfold Endpoint.enter at h
  split at h
  · cases h
    exact .health
  · cases h
    exact .ingestWithoutFile
  · split at h
    · rename_i e hrefused
      cases h
      rcases getRecords_error hrefused with hunhandled | rfl | rfl
      · rw [hunhandled]
        exact .ingestUnhandled
      · exact .noValidRows
      · exact .tooManyRows
    · cases h
  · split at h
    · rename_i hid
      cases h
      exact .invalidId hid
    · cases h
  · cases h
    exact .uploadWithoutFile
  · cases h
  · cases h

/-- The use cases end without an error of the code, or with one that is documented. -/
theorem outcome_of_raised {e : Exn} {parseErrors : List String} {outcome : Outcome}
    (h : (Status.raised e).outcome parseErrors = some outcome) :
    outcome = .unhandled ∨ e.isDomain = true ∧ outcome = e.toHttp.handle := by
  cases h
  rcases hdomain : e.isDomain with _ | _
  · rw [toHttp_of_not_isDomain hdomain]
    exact Or.inl rfl
  · exact Or.inr ⟨rfl, rfl⟩

/-- The response to a synchronous ingestion accounts for the rows of its file. -/
theorem Endpoint.documents_of_ingest {t : ReferenceTable} {file : Bytes}
    {records : List ReferenceRecord} {parseErrors : List String}
    (hrecords : getRecords (parseReference t) file = .ok (records, parseErrors)) {status : Status}
    (hends : (Request.ingest t u records).EndsAs status) {outcome : Outcome}
    (houtcome : status.outcome parseErrors = some outcome) :
    (Endpoint.ingest t (some file)).Documents fw outcome := by
  have hparse := (getRecords_ok hrecords).1
  rw [parseReference_eq] at hparse
  obtain ⟨rows, hrows, hlength⟩ := parseFile_length hparse
  cases status with
  | running rest => cases houtcome
  | cut => cases houtcome
  | returned response =>
      obtain ⟨reply, rfl, hreports⟩ := hends
      cases houtcome
      refine .ingested hrows ?_
      rw [IngestReference.Reports] at hreports
      rw [List.length_append]
      omega
  | raised e =>
      rcases outcome_of_raised houtcome with rfl | ⟨hdomain, rfl⟩
      · exact .ingestUnhandled
      · obtain ⟨cause, -, rfl⟩ := hends hdomain
        exact .dbUnavailable

/-- A use case that has ended as its program says ends with one of the documented outcomes. -/
theorem Endpoint.documents_of_admitted {endpoint : Endpoint} {next : Request}
    {parseErrors : List String} (h : endpoint.enter fw u = .admitted next parseErrors)
    {status : Status} (hends : next.EndsAs status)
    (hpoll : ∀ b answer, next = .getBatchStatus b → status = .returned (.status answer) →
      answer.batchId = b)
    {outcome : Outcome} (houtcome : status.outcome parseErrors = some outcome) :
    endpoint.Documents fw outcome := by
  unfold Endpoint.enter at h
  split at h
  · cases h
  · cases h
  · split at h
    · cases h
    · rename_i hrecords
      cases h
      exact Endpoint.documents_of_ingest hrecords hends houtcome
  · split at h
    · cases h
    · rename_i b hid
      cases h
      cases status with
      | running rest => cases houtcome
      | cut => cases houtcome
      | returned response =>
          obtain ⟨answer, rfl⟩ := hends
          cases houtcome
          rw [hpoll b answer rfl rfl]
          exact .status hid
      | raised e =>
          rcases outcome_of_raised houtcome with rfl | ⟨hdomain, rfl⟩
          · exact .statusUnhandled
          · obtain rfl := hends hdomain
            exact .notFound hid
  · cases h
  · cases h
    cases status with
    | running rest => cases houtcome
    | cut => cases houtcome
    | returned response =>
        obtain rfl : response = .accepted u := hends
        cases houtcome
        exact .accepted u
    | raised e =>
        rcases outcome_of_raised houtcome with rfl | ⟨hdomain, rfl⟩
        · exact .uploadUnhandled
        · cases Eq.trans (Eq.symm hends) hdomain
  · cases h
    cases status with
    | running rest => cases houtcome
    | cut => cases houtcome
    | returned response =>
        obtain ⟨rows, rfl⟩ := hends
        cases houtcome
        exact .metric rows
    | raised e =>
        rcases outcome_of_raised houtcome with rfl | ⟨hdomain, rfl⟩
        · exact .metricUnhandled
        · obtain ⟨cause, rfl⟩ := hends hdomain
          exact .analyticsUnavailable

end Routes

/-- A call that raises nothing by itself raises no error of the code. -/
theorem Service.ported_of_isCalm {s : Service} {l : Label} (h : l.isCalm = true) : s.Ported l := by
  rintro q c f rfl hf
  rw [Label.isCalm, hf] at h
  cases h

namespace Api

variable {d : Deployment} {ok : Service → Label → Prop} {db : Db}
  {storage : ObjectKey → Option Bytes} {s : Api} {pid : Pid} {conn : HttpConnection}

/-- In a run of the application the ports raise none of the errors of the code. -/
theorem ported_of_admits (hok : ∀ s l, ok s l → Service.Ported s l) {s : Service} {l : Label}
    (h : Admits ok s l) : Service.Ported s l := by
  rcases h with ⟨pid, request, rfl, -⟩ | ⟨-, hl⟩
  · exact nofun
  · exact hok s l hl

/-- Whatever the calls raise (short of the errors of the code itself), whoever is cut off and however
the requests interleave, a response is one that is documented for its route, and it carries the id
of its request unless it is a bare 500. -/
theorem responses_are_documented (hok : ∀ s l, ok s l → Service.Ported s l)
    (hruns : Runs d ok (initial db storage) s) (hconn : s.connections pid = some conn)
    {response : HttpResponse} (hresponse : s.response pid = some response) :
    ∃ outcome, conn.request.endpoint.Documents d.framework outcome ∧
      response = conn.request.respond conn.uuid outcome := by
  have hservice := serviceRuns hruns
  obtain ⟨outcome, hresponds, rfl⟩ := (linked_of_runs hruns).responds hconn hresponse
  refine ⟨outcome, ?_, rfl⟩
  rcases hresponds with ⟨hclient, hraises⟩ | ⟨hroute⟩ | ⟨hroute, hproc, houtcome⟩
  · exact Endpoint.documents_of_construct hclient hraises
  · exact Endpoint.documents_of_ended hroute
  · have hends := Service.concluded_of_runs (fun s l => ported_of_admits hok) hservice hproc
    refine Endpoint.documents_of_admitted hroute hends ?_ houtcome
    rintro b answer rfl rfl
    obtain ⟨answer', hanswer, hanswered⟩ :=
      Service.answered_of_runs (Service.kept_initial db storage) rfl hservice hproc
    cases hanswer
    exact hanswered.batchId

theorem responses_are_documented_sample :
    ∃ s conn response, (initial sampleDb fun _ => none).follow sampleDeployment Label.isCalm
        departmentsUpload = some s ∧ s.connections 0 = some conn ∧ s.response 0 = some response ∧
      response.status = 200 ∧
      ∃ outcome, conn.request.endpoint.Documents sampleDeployment.framework outcome ∧
        response = conn.request.respond conn.uuid outcome := by
  have hend : ((initial sampleDb fun _ => none).follow sampleDeployment Label.isCalm
      departmentsUpload).map (fun s => (s.response 0).map HttpResponse.status) = some (some 200) := by
    decide +kernel
  obtain ⟨s, hs, hresponse⟩ := Option.map_eq_some_iff.mp hend
  obtain ⟨response, hresponse, hstatus⟩ := Option.map_eq_some_iff.mp hresponse
  obtain ⟨conn, hconn, -⟩ := Option.bind_eq_some_iff.mp hresponse
  have hruns : Runs sampleDeployment Service.Ported (initial sampleDb fun _ => none) s :=
    runs_of_follow (fun _ _ => Service.ported_of_isCalm) hs
  exact ⟨s, conn, response, hs, hconn, hresponse, hstatus,
    responses_are_documented (fun _ _ => id) hruns hconn hresponse⟩

end Api

end HiringService
