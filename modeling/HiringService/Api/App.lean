import HiringService.Api.Admission
import HiringService.Service.Registry

/-!
# The application

The service behind its routes. A step lets a client connect, or is a step of the service that is no
arrival: the requests of the service arrive only through `HttpRequest.enter`. So every run of the
application is a run of the service (`serviceRuns`), whose synchronous ingestions have between one
record and `maxRows` records.
-/

namespace HiringService

/-! ## The machine -/

/-- How the application is deployed. -/
structure Deployment where
  settings : Settings
  environment : Environment
  framework : Framework

/-- A request that has been received: the id that `uuid4()` has returned in the middleware, and what
has become of the request before its use case. -/
structure HttpConnection where
  request : HttpRequest
  uuid : String
  admission : Admission

/-- The state of the application; `clients` are those that `lru_cache` keeps. -/
structure Api where
  service : Service
  clients : List Client
  connections : Pid → Option HttpConnection

/-- What happens in a step. -/
inductive ApiLabel
  | connect (pid : Pid) (request : HttpRequest) (uuid : String) (u : BatchId) (fails : Client → Bool)
  | serve (l : Label)

/-- What a process has ended with. -/
def Status.outcome (parseErrors : List String) : Status → Option Outcome
  | .returned response => response.outcome parseErrors
  | .raised e => some e.toHttp.handle
  | _ => none

/-- What a request has ended with; `proc` is its process. -/
def HttpConnection.outcome (conn : HttpConnection) (proc : Option Process) : Option Outcome :=
  match conn.admission with
  | .ended outcome => some outcome
  | .admitted _ parseErrors => proc.bind fun proc => proc.status.outcome parseErrors

/-- No call of the label raises anything by itself. -/
def Label.isCalm : Label → Bool
  | .call _ c => c.fault.isNone
  | _ => true

/-- The label of an arrival. -/
def Label.isArrival : Label → Bool
  | .arrive .. => true
  | _ => false

namespace Api

/-- The state after a request has been received. -/
def receive (s : Api) (pid : Pid) (conn : HttpConnection) (clients : List Client) (service : Service) :
    Api :=
  ⟨service, clients, Function.update s.connections pid (some conn)⟩

/-- The new connection. -/
theorem receive_connections_self (s : Api) (pid : Pid) (conn : HttpConnection) (clients : List Client)
    (service : Service) : (s.receive pid conn clients service).connections pid = some conn :=
  Function.update_self ..

/-- The other connections stay as they are. -/
theorem receive_connections_of_ne (s : Api) {pid pid' : Pid} (h : pid ≠ pid') (conn : HttpConnection)
    (clients : List Client) (service : Service) :
    (s.receive pid' conn clients service).connections pid = s.connections pid :=
  Function.update_of_ne h ..

/-- One step; `none` when the label does not fit the state. -/
def step (d : Deployment) (s : Api) : ApiLabel → Option Api
  | .connect pid request uuid u fails =>
      if (s.connections pid).isNone ∧ (s.service.procs pid).isNone then
        let admitted := request.enter d.environment d.framework fails s.clients u
        let conn : HttpConnection := ⟨request, uuid, admitted.2⟩
        match admitted.2 with
        | .ended _ => some (s.receive pid conn admitted.1 s.service)
        | .admitted next _ =>
            (s.service.step d.settings (.arrive pid next)).map (s.receive pid conn admitted.1)
      else none
  | .serve l =>
      if l.isArrival then none
      else (s.service.step d.settings l).map fun service => { s with service := service }

/-- The application before any request. -/
def initial (db : Db) (storage : ObjectKey → Option Bytes) : Api :=
  ⟨Service.initial db storage, [], fun _ => none⟩

/-- The response to a request that has ended. -/
def response (s : Api) (pid : Pid) : Option HttpResponse :=
  (s.connections pid).bind fun conn =>
    (conn.outcome (s.service.procs pid)).map (conn.request.respond conn.uuid)

/-- Take the steps of a list of labels, as long as those of the service pass a test. -/
def follow (d : Deployment) (test : Label → Bool) : Api → List ApiLabel → Option Api
  | s, [] => some s
  | s, .serve l :: ls =>
      if test l then (s.step d (.serve l)).bind fun s' => s'.follow d test ls else none
  | s, l :: ls => (s.step d l).bind fun s' => s'.follow d test ls

/-- A step whose label, if it is one of the service, meets the condition `ok`. -/
def Next (d : Deployment) (ok : Service → Label → Prop) (s s' : Api) : Prop :=
  ∃ l, (∀ l', l = .serve l' → ok s.service l') ∧ s.step d l = some s'

/-- A run whose steps all meet the condition `ok`. -/
abbrev Runs (d : Deployment) (ok : Service → Label → Prop) : Api → Api → Prop :=
  Relation.ReflTransGen (Next d ok)

/-- Following labels is a run, if the test is at least as strict as the condition. -/
theorem runs_of_follow {d : Deployment} {test : Label → Bool} {ok : Service → Label → Prop}
    (htest : ∀ s l, test l = true → ok s l) {ls : List ApiLabel} {s s' : Api}
    (h : s.follow d test ls = some s') : Runs d ok s s' := by
  induction ls generalizing s with
  | nil =>
      cases h
      exact .refl
  | cons l ls ih =>
      cases l with
      | connect pid request uuid u fails =>
          obtain ⟨s₁, hs₁, hrest⟩ := Option.bind_eq_some_iff.mp h
          exact .head ⟨.connect pid request uuid u fails, nofun, hs₁⟩ (ih hrest)
      | serve l =>
          rw [follow] at h
          split_ifs at h with hl
          obtain ⟨s₁, hs₁, hrest⟩ := Option.bind_eq_some_iff.mp h
          exact .head ⟨_, fun l' hl' => ApiLabel.serve.inj hl' ▸ htest s.service l hl, hs₁⟩ (ih hrest)

/-! ## Steps -/

section Steps

variable {d : Deployment} {ok : Service → Label → Prop} {s s' : Api} {l : ApiLabel}

/-- The batch of a synchronous ingestion has passed `validate_batch`. -/
def Checked (request : Request) : Prop :=
  ∀ t u records, request = .ingest t u records → records ≠ [] ∧ records.length ≤ maxRows

/-- Only a batch that `validate_batch` has let through is admitted. -/
theorem checked_of_enter {endpoint : Endpoint} {fw : Framework} {u : BatchId} {next : Request}
    {parseErrors : List String} (h : endpoint.enter fw u = .admitted next parseErrors) :
    Checked next := by
  rintro t u records rfl
  unfold Endpoint.enter at h
  split at h
  · cases h
  · cases h
  · split at h
    · cases h
    · rename_i hrecords
      cases h
      exact (getRecords_ok hrecords).2
  · split at h <;> cases h
  · cases h
  · cases h
  · cases h

/-- An upload depends on the clients that its task asks for again. -/
theorem clients_of_upload {endpoint : Endpoint} {fw : Framework} {u u' : BatchId} {file : Bytes}
    {parseErrors : List String}
    (h : endpoint.enter fw u = .admitted (.ingestEmployees u' file) parseErrors) :
    endpoint.clients = [.cache, .storage] := by
  unfold Endpoint.enter at h
  split at h
  · cases h
  · cases h
  · split at h <;> cases h
  · split at h <;> cases h
  · cases h
  · rfl
  · cases h

/-- The labels of the service in a run of the application. -/
def Admits (ok : Service → Label → Prop) (s : Service) (l : Label) : Prop :=
  (∃ pid request, l = .arrive pid request ∧ Checked request) ∨ (l.isArrival = false ∧ ok s l)

/-- What a step does. -/
inductive Move (d : Deployment) (s : Api) : ApiLabel → Api → Prop
  | ended {pid request uuid u fails outcome} (hnew : s.connections pid = none)
      (hproc : s.service.procs pid = none)
      (henter : (HttpRequest.enter request d.environment d.framework fails s.clients u).2 =
        .ended outcome) :
      Move d s (.connect pid request uuid u fails)
        (s.receive pid ⟨request, uuid, .ended outcome⟩
          (request.enter d.environment d.framework fails s.clients u).1 s.service)
  | admitted {pid request uuid u fails next parseErrors service} (hnew : s.connections pid = none)
      (hproc : s.service.procs pid = none)
      (henter : (HttpRequest.enter request d.environment d.framework fails s.clients u).2 =
        .admitted next parseErrors)
      (hstep : s.service.step d.settings (.arrive pid next) = some service) :
      Move d s (.connect pid request uuid u fails)
        (s.receive pid ⟨request, uuid, .admitted next parseErrors⟩
          (request.enter d.environment d.framework fails s.clients u).1 service)
  | serve {l service} (hl : l.isArrival = false)
      (hstep : s.service.step d.settings l = some service) :
      Move d s (.serve l) { s with service := service }

/-- What a step of the application can do. -/
theorem move_of_step (h : s.step d l = some s') : Move d s l s' := by
  cases l with
  | connect pid request uuid u fails =>
      rw [step] at h
      split_ifs at h with hfree
      obtain ⟨hnew, hproc⟩ := hfree
      rw [Option.isNone_iff_eq_none] at hnew hproc
      dsimp only at h
      split at h
      · rename_i outcome henter
        cases h
        rw [henter]
        exact .ended hnew hproc henter
      · rename_i next parseErrors henter
        obtain ⟨service, hservice, rfl⟩ := Option.map_eq_some_iff.mp h
        rw [henter]
        exact .admitted hnew hproc henter hservice
  | serve l =>
      rw [step] at h
      split_ifs at h with hl
      obtain ⟨service, hservice, rfl⟩ := Option.map_eq_some_iff.mp h
      exact .serve (by simpa using hl) hservice

/-- A connection stays as it is. -/
theorem Move.connection (h : Move d s l s') {pid : Pid} {conn : HttpConnection}
    (hconn : s.connections pid = some conn) : s'.connections pid = some conn := by
  have hreceive : ∀ {pid' conn' clients service}, s.connections pid' = none →
      (s.receive pid' conn' clients service).connections pid = some conn := by
    intro pid' conn' clients service hnew
    have hne : pid ≠ pid' := by
      rintro rfl
      cases hnew.symm.trans hconn
    rw [receive_connections_of_ne s hne, hconn]
  cases h with
  | ended hnew => exact hreceive hnew
  | admitted hnew => exact hreceive hnew
  | serve => exact hconn

/-- A connection was there before, or it has just been made by a process id that was free. -/
theorem Move.connection_before (h : Move d s l s') {pid : Pid} {conn : HttpConnection}
    (hconn : s'.connections pid = some conn) : s.connections pid = some conn ∨
      s.connections pid = none ∧ s.service.procs pid = none := by
  have hreceive : ∀ {pid' conn' clients service}, s.connections pid' = none →
      s.service.procs pid' = none →
      (s.receive pid' conn' clients service).connections pid = some conn →
      s.connections pid = some conn ∨ s.connections pid = none ∧ s.service.procs pid = none := by
    intro pid' conn' clients service hnew hproc hconn
    rcases eq_or_ne pid pid' with rfl | hne
    · exact Or.inr ⟨hnew, hproc⟩
    · rw [receive_connections_of_ne s hne] at hconn
      exact Or.inl hconn
  cases h with
  | ended hnew hproc => exact hreceive hnew hproc hconn
  | admitted hnew hproc => exact hreceive hnew hproc hconn
  | serve => exact Or.inl hconn

/-- A step of the application is a step of the service, or leaves the service as it is. -/
theorem Move.service (h : Move d s l s') (hok : ∀ l', l = .serve l' → ok s.service l') :
    s'.service = s.service ∨
      ∃ l', Admits ok s.service l' ∧ s.service.step d.settings l' = some s'.service := by
  cases h with
  | ended => exact Or.inl rfl
  | admitted _ _ henter hstep =>
      exact Or.inr ⟨_, Or.inl ⟨_, _, rfl, checked_of_enter (HttpRequest.admitted_inv henter).1⟩, hstep⟩
  | serve hl hstep => exact Or.inr ⟨_, Or.inr ⟨hl, hok _ rfl⟩, hstep⟩

/-! ## Runs -/

/-- A run whose steps meet a stricter condition. -/
theorem runs_mono {ok' : Service → Label → Prop} (hok : ∀ s l, ok s l → ok' s l)
    (h : Runs d ok s s') : Runs d ok' s s' := by
  refine Relation.ReflTransGen.mono (fun _ _ hnext => ?_) _ _ h
  obtain ⟨l, hl, hstep⟩ := hnext
  exact ⟨l, fun l' hserve => hok _ _ (hl l' hserve), hstep⟩

/-- A run of the application is a run of the service. -/
theorem serviceRuns (h : Runs d ok s s') :
    Service.Runs d.settings (Admits ok) s.service s'.service := by
  induction h with
  | refl => exact .refl
  | tail _ hnext ih =>
      obtain ⟨l, hl, hstep⟩ := hnext
      rcases (move_of_step hstep).service hl with hsame | ⟨l', hl', hstep'⟩
      · rw [hsame]
        exact ih
      · exact ih.tail ⟨l', hl', hstep'⟩

/-- No process is forgotten, and none changes its request. -/
theorem Move.proc (h : Move d s l s') {pid : Pid} {proc : Process}
    (hproc : s.service.procs pid = some proc) :
    ∃ proc', s'.service.procs pid = some proc' ∧ proc'.request = proc.request := by
  cases h with
  | ended => exact ⟨proc, hproc, rfl⟩
  | admitted _ _ _ hstep => exact ((Service.move_of_step hstep).turn pid).request hproc
  | serve _ hstep => exact ((Service.move_of_step hstep).turn pid).request hproc

/-- A process stays, with its request. -/
theorem proc_of_runs (h : Runs d ok s s') {pid : Pid} {proc : Process}
    (hproc : s.service.procs pid = some proc) :
    ∃ proc', s'.service.procs pid = some proc' ∧ proc'.request = proc.request := by
  induction h with
  | refl => exact ⟨proc, hproc, rfl⟩
  | tail _ hnext ih =>
      obtain ⟨proc₁, hproc₁, hrequest₁⟩ := ih
      obtain ⟨l, -, hstep⟩ := hnext
      obtain ⟨proc₂, hproc₂, hrequest₂⟩ := (move_of_step hstep).proc hproc₁
      exact ⟨proc₂, hproc₂, hrequest₂.trans hrequest₁⟩

/-- The process id of a request that has come later was free. -/
theorem free_of_runs (h : Runs d ok s s') {pid : Pid} (hnew : s.connections pid = none)
    {conn : HttpConnection} (hconn : s'.connections pid = some conn) : s.service.procs pid = none := by
  induction h with
  | refl => cases hnew.symm.trans hconn
  | tail hbefore hnext ih =>
      obtain ⟨l, -, hstep⟩ := hnext
      rcases (move_of_step hstep).connection_before hconn with hconn | ⟨-, hfree⟩
      · exact ih hconn
      · rcases hproc : s.service.procs pid with _ | proc
        · rfl
        · obtain ⟨proc', hproc', -⟩ := proc_of_runs hbefore hproc
          cases hfree.symm.trans hproc'

/-! ## Connections and processes -/

/-- What is known of the connections in every state. -/
structure Linked (d : Deployment) (s : Api) : Prop where
  /-- What has become of a request is what its route has made of it. -/
  admitted : ∀ {pid conn}, s.connections pid = some conn → ∃ fails built u,
    (HttpRequest.enter conn.request d.environment d.framework fails built u).2 = conn.admission
  /-- A request that is admitted has a process. -/
  process : ∀ {pid conn next parseErrors}, s.connections pid = some conn →
    conn.admission = .admitted next parseErrors → ∃ status, s.service.procs pid = some ⟨next, status⟩
  /-- The clients of an upload exist. -/
  clients : ∀ {pid u file status}, s.service.procs pid = some ⟨.ingestEmployees u file, status⟩ →
    [Client.cache, .storage] ⊆ s.clients

/-- Without connections there is nothing to link. -/
theorem linked_initial (db : Db) (storage : ObjectKey → Option Bytes) :
    (initial db storage).Linked d :=
  ⟨nofun, nofun, nofun⟩

/-- The admission of a connection is that of its request. -/
theorem Linked.admitted_step (h : s.Linked d) (hmove : Move d s l s') {pid : Pid}
    {conn : HttpConnection} (hconn : s'.connections pid = some conn) : ∃ fails built u,
      (HttpRequest.enter conn.request d.environment d.framework fails built u).2 = conn.admission := by
  have hreceive : ∀ {pid' conn' clients service}, (∃ fails built u,
        (HttpRequest.enter conn'.request d.environment d.framework fails built u).2 = conn'.admission) →
      (s.receive pid' conn' clients service).connections pid = some conn → ∃ fails built u,
        (HttpRequest.enter conn.request d.environment d.framework fails built u).2 =
          conn.admission := by
    intro pid' conn' clients service henter hconn
    rcases eq_or_ne pid pid' with rfl | hne
    · rw [receive_connections_self] at hconn
      cases hconn
      exact henter
    · rw [receive_connections_of_ne s hne] at hconn
      exact h.admitted hconn
  cases hmove with
  | ended _ _ henter => exact hreceive ⟨_, _, _, henter⟩ hconn
  | admitted _ _ henter => exact hreceive ⟨_, _, _, henter⟩ hconn
  | serve => exact h.admitted hconn

/-- An admitted request has its process. -/
theorem Linked.process_step (h : s.Linked d) (hmove : Move d s l s') {pid : Pid} {conn : HttpConnection}
    {next : Request} {parseErrors : List String} (hconn : s'.connections pid = some conn)
    (hadmission : conn.admission = .admitted next parseErrors) :
    ∃ status, s'.service.procs pid = some ⟨next, status⟩ := by
  have hbefore : s.connections pid = some conn →
      ∃ status, s'.service.procs pid = some ⟨next, status⟩ := by
    intro hconn
    obtain ⟨status, hproc⟩ := h.process hconn hadmission
    obtain ⟨⟨request, status'⟩, hproc', hrequest⟩ := hmove.proc hproc
    cases hrequest
    exact ⟨status', hproc'⟩
  cases hmove with
  | @ended pid' =>
      rcases eq_or_ne pid pid' with rfl | hne
      · rw [receive_connections_self] at hconn
        cases hconn
        cases hadmission
      · rw [receive_connections_of_ne s hne] at hconn
        exact hbefore hconn
  | @admitted pid' _ _ _ _ _ _ _ _ _ _ hstep =>
      rcases eq_or_ne pid pid' with rfl | hne
      · rw [receive_connections_self] at hconn
        cases hconn
        cases hadmission
        cases Service.move_of_step hstep
        exact ⟨_, Service.set_procs_self pid _ s.service.world⟩
      · rw [receive_connections_of_ne s hne] at hconn
        exact hbefore hconn
  | serve => exact hbefore hconn

/-- The clients of a process have been built before it was started. -/
theorem Linked.clients_step (h : s.Linked d) (hmove : Move d s l s') {pid : Pid} {u : BatchId}
    {file : Bytes} {status : Status}
    (hproc : s'.service.procs pid = some ⟨.ingestEmployees u file, status⟩) :
    [Client.cache, .storage] ⊆ s'.clients := by
  -- a process that was there before has its clients
  have hbefore : ∀ {l'}, s.service.step d.settings l' = some s'.service →
      (∀ pid' request, l' = .arrive pid' request → request ≠ .ingestEmployees u file) →
      [Client.cache, .storage] ⊆ s.clients := by
    intro l' hstep hl'
    rcases ((Service.move_of_step hstep).turn pid).origin hproc with
      ⟨⟨request, status'⟩, hproc', hrequest⟩ | ⟨-, hstarts⟩
    · cases hrequest
      exact h.clients hproc'
    · cases hstarts with
      | arrive => exact absurd rfl (hl' _ _ rfl)
      | schedule htask =>
          obtain ⟨_, _, _, -, -, hnext⟩ := Request.task_eq_some htask
          cases hnext
  cases hmove with
  | ended => exact List.Subset.trans (h.clients hproc) HttpRequest.subset_enter
  | @admitted pid' request _ _ _ next _ _ _ _ henter hstep =>
      -- the route of an upload builds both clients before it is admitted
      by_cases hupload : next = .ingestEmployees u file
      · subst hupload
        obtain ⟨hroute, hclients⟩ := HttpRequest.admitted_inv henter
        rwa [clients_of_upload hroute] at hclients
      · refine List.Subset.trans (hbefore hstep ?_) HttpRequest.subset_enter
        rintro _ _ ⟨⟩
        exact hupload
  | serve hl hstep =>
      refine hbefore hstep ?_
      rintro pid' request rfl
      cases hl

/-- One step keeps connections and processes linked. -/
theorem Linked.step (h : s.Linked d) (hmove : Move d s l s') : s'.Linked d where
  admitted := h.admitted_step hmove
  process := h.process_step hmove
  clients := h.clients_step hmove

/-- A run keeps connections and processes linked. -/
theorem Linked.runs (h : s.Linked d) (hruns : Runs d ok s s') : s'.Linked d := by
  induction hruns with
  | refl => exact h
  | tail _ hnext ih =>
      obtain ⟨l, -, hstep⟩ := hnext
      exact ih.step (move_of_step hstep)

/-- In every run, connections and processes are linked. -/
theorem linked_of_runs {db : Db} {storage : ObjectKey → Option Bytes}
    (h : Runs d ok (initial db storage) s) : s.Linked d :=
  (linked_initial db storage).runs h

/-- Where the outcome of a request comes from: a client, its route, or its use case. -/
inductive Responds (d : Deployment) (s : Api) (pid : Pid) (endpoint : Endpoint) : Outcome → Prop
  | client {client : Client} {e : HttpError} {fails : Client → Bool}
      (hclient : client ∈ endpoint.clients)
      (hraises : client.construct d.environment fails = .error e) : Responds d s pid endpoint e.handle
  | route {u : BatchId} {outcome : Outcome} (hroute : endpoint.enter d.framework u = .ended outcome) :
      Responds d s pid endpoint outcome
  | useCase {u : BatchId} {next : Request} {parseErrors : List String} {status : Status}
      {outcome : Outcome} (hroute : endpoint.enter d.framework u = .admitted next parseErrors)
      (hproc : s.service.procs pid = some ⟨next, status⟩)
      (houtcome : status.outcome parseErrors = some outcome) : Responds d s pid endpoint outcome

/-- A response is that of an outcome of its request. -/
theorem Linked.responds (h : s.Linked d) {pid : Pid} {conn : HttpConnection} {response : HttpResponse}
    (hconn : s.connections pid = some conn) (hresponse : s.response pid = some response) :
    ∃ outcome, Responds d s pid conn.request.endpoint outcome ∧
      response = conn.request.respond conn.uuid outcome := by
  obtain ⟨fails, built, u, hadmission⟩ := h.admitted hconn
  rw [Api.response, hconn, Option.bind_some, Option.map_eq_some_iff] at hresponse
  obtain ⟨outcome, houtcome, rfl⟩ := hresponse
  refine ⟨outcome, ?_, rfl⟩
  rw [HttpConnection.outcome] at houtcome
  rcases hended : conn.admission with outcome' | ⟨next, parseErrors⟩
  · rw [hended] at hadmission houtcome
    cases houtcome
    rcases HttpRequest.ended_inv hadmission with ⟨client, hclient, e, hraises, rfl⟩ | hroute
    · exact .client hclient hraises
    · exact .route hroute
  · rw [hended] at hadmission houtcome
    obtain ⟨status, hproc⟩ := h.process hconn hended
    rw [hproc] at houtcome
    exact .useCase (HttpRequest.admitted_inv hadmission).1 hproc houtcome

/-- The task of an upload asks for its clients again, and is never refused one: the upload has had
them built. -/
theorem Linked.getClients_of_task (h : s.Linked d) {pid : Pid} {u : BatchId} {file : Bytes}
    {status : Status} (hproc : s.service.procs pid = some ⟨.ingestEmployees u file, status⟩)
    (fails : Client → Bool) :
    getClients d.environment fails [.cache, .storage] s.clients = (s.clients, .ok ()) :=
  getClients_of_subset (h.clients hproc)

end Steps

/-! ## Samples -/

/-- A framework that writes ids as numbers. -/
def sampleFramework : Framework where
  parseId text :=
    if text.toList.all Char.isDigit then .ok (Nat.ofDigitChars 10 text.toList 0) else .error .null
  missingFile := .null

/-- A deployment in which no client is missing. -/
def sampleDeployment : Deployment where
  settings := ⟨"hiring", 2, 600⟩
  environment := ⟨some "redis://cache:6379", some "hiring"⟩
  framework := sampleFramework

/-- The upload of a departments file whose second row cannot be read, under the batch 8. -/
def departmentsUpload : List ApiLabel :=
  [.connect 0 ⟨.ingest .departments (some [50, 44, 65, 10, 66]), none⟩ "id" 8 fun _ => false,
    .serve (.call 0 .calm), .serve (.call 0 .calm), .serve (.call 0 .calm), .serve (.call 0 .calm),
    .serve (.finish 0 0)]

end Api

end HiringService
