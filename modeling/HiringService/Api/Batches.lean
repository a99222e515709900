import HiringService.Api.Responses

/-!
# The batch of an upload, as clients see it

A client that gets 202 for an employees file has a task that works on its batch, and only one; when
it polls the id from the response, it is never told that there is no such batch. Once any client has
been told that a batch has ended, nobody is told again that it is pending.
-/

namespace HiringService

open Python (Json)

/-- The request polls the batch `b`. -/
def HttpConnection.Polls (conn : HttpConnection) (fw : Framework) (b : BatchId) : Prop :=
  ∃ batchId, conn.request.endpoint = .getBatchStatus batchId ∧ fw.parseId batchId = .ok b

/-- The clients tell the statuses apart. -/
theorem IngestionBatchStatus.value_injective {status status' : IngestionBatchStatus}
    (h : status.value = status'.value) : status = status' := by
  cases status <;> cases status' <;> first | rfl | exact absurd h (by decide)

/-- The calls of uploads raise no `HTTPException`. -/
def Service.Quiet (s : Service) (l : Label) : Prop :=
  ∀ q c f u file status, l = .call q c → c.fault = some f →
    s.procs q = some ⟨.ingestEmployees u file, status⟩ → f.exn.isHttp = false

theorem Service.quiet_of_isCalm {s : Service} {l : Label} (h : l.isCalm = true) : s.Quiet l := by
  rintro q c f u file status rfl hf
  rw [Label.isCalm, hf] at h
  cases h

namespace Api

variable {d : Deployment} {ok ok' ok₀ : Service → Label → Prop} {db : Db}
  {storage : ObjectKey → Option Bytes} {s₀ s s' : Api} {pid q : Pid} {conn : HttpConnection}
  {response : HttpResponse} {b : BatchId} {status : IngestionBatchStatus}

/-- A client has been told the status of batch `b`. -/
def Tells (d : Deployment) (s : Api) (q : Pid) (b : BatchId) (status : IngestionBatchStatus) : Prop :=
  ∃ conn response errors, s.connections q = some conn ∧ conn.Polls d.framework b ∧
    s.response q = some response ∧ response.body = .json (.obj [("batch_id", .str (toString b)),
      ("status", .str status.value), ("errors", errorsJson errors)])

/-- What the constructor of a client raises is answered with 500. -/
theorem status_of_construct {env : Environment} {fails : Client → Bool} {client : Client}
    {e : HttpError} (h : client.construct env fails = .error e) {request : HttpRequest}
    {uuid : String} : (request.respond uuid e.handle).status = 500 := by
  unfold Client.construct at h
  dsimp only at h
  split at h
  all_goals
    split_ifs at h
    all_goals
      cases h
      rfl

/-! ## Polls -/

/-- A poll that is answered comes from its use case. -/
theorem polls_inv (hlinked : s.Linked d) (hconn : s.connections q = some conn)
    (hpolls : conn.Polls d.framework b) (hresponse : s.response q = some response) :
    ∃ status outcome, s.service.procs q = some ⟨.getBatchStatus b, status⟩ ∧
      status.outcome [] = some outcome ∧ response = conn.request.respond conn.uuid outcome := by
  obtain ⟨batchId, hendpoint, hid⟩ := hpolls
  obtain ⟨outcome, hresponds, rfl⟩ := hlinked.responds hconn hresponse
  rw [hendpoint] at hresponds
  rcases hresponds with ⟨hclient, -⟩ | ⟨hroute⟩ | @⟨u, next, _, status, _, hroute, hproc, houtcome⟩
  · cases hclient
  · rw [Endpoint.enter, hid] at hroute
    cases hroute
  · rw [Endpoint.enter, hid] at hroute
    cases hroute
    exact ⟨status, outcome, hproc, houtcome, rfl⟩

/-- What a client has been told is what a poll has answered, and the poll has answered the status of
a committed row. -/
theorem Tells.answered {s₀ : Service} (h : s.Tells d q b status) (hlinked : s.Linked d)
    (hkept₀ : s₀.Kept d.settings) (hnew : s₀.procs q = none)
    (hruns : Service.Runs d.settings ok s₀ s.service) :
    ∃ answer, Service.Answered d.settings ok s₀ s.service q b answer ∧ answer.status = status := by
  obtain ⟨conn, response, errors, hconn, hpolls, hresponse, hbody⟩ := h
  obtain ⟨status', outcome, hproc, houtcome, rfl⟩ := polls_inv hlinked hconn hpolls hresponse
  cases status' with
  | running rest => cases houtcome
  | cut => cases houtcome
  | returned response =>
      obtain ⟨answer, rfl, hanswered⟩ := Service.answered_of_runs hkept₀ hnew hruns hproc
      cases houtcome
      refine ⟨answer, hanswered, IngestionBatchStatus.value_injective ?_⟩
      simp only [HttpRequest.respond, Body.json.injEq, Json.obj.injEq, List.cons.injEq,
        Prod.mk.injEq, Json.str.injEq] at hbody
      exact hbody.2.1.2
  | raised e =>
      cases houtcome
      cases he : e.toHttp <;> simp [he, HttpError.handle, HttpRequest.respond] at hbody

/-- Once a client has been told that a batch has ended, no client that asks later is told that it is
pending, in any run and whatever raises. -/
theorem ended_batch_stays_ended (hruns : Runs d ok (initial db storage) s)
    (htold : s.Tells d q b status) (hended : status ≠ .pending) (hruns' : Runs d ok' s s') {q' : Pid}
    (hlater : s.connections q' = none) {status' : IngestionBatchStatus}
    (htold' : s'.Tells d q' b status') : status' ≠ .pending := by
  have hkept : s.service.Kept d.settings :=
    (Service.kept_initial db storage).runs (serviceRuns hruns)
  have hlinked := linked_of_runs hruns
  obtain ⟨conn', response', errors', hconn', -⟩ := id htold'
  -- the first poll has read a row that was not pending
  have hkept₀ : (Service.initial db storage).Kept d.settings := Service.kept_initial db storage
  obtain ⟨answer, hanswered, rfl⟩ := htold.answered hlinked hkept₀ rfl (serviceRuns hruns)
  obtain ⟨s₁, batch₁, hbefore, hafter, hrow, hstatus⟩ := hanswered.row hkept₀
  obtain ⟨batch, hbatch, -, hpending⟩ := (hkept₀.runs hbefore).batch_runs hafter hrow
  -- the second has read a row that the first one's has become
  obtain ⟨answer', hanswered', rfl⟩ := htold'.answered (hlinked.runs hruns') hkept
    (free_of_runs hruns' hlater hconn') (serviceRuns hruns')
  obtain ⟨s₁', batch₁', hbefore', -, hrow', hstatus'⟩ := hanswered'.row hkept
  obtain ⟨batch', hbatch', -, hpending'⟩ := hkept.batch_runs hbefore' hbatch
  cases hbatch'.symm.trans hrow'
  exact fun h => hended (hstatus.trans (hpending (hpending' (hstatus'.symm.trans h))))

/-- A poll that has returned tells its client. -/
theorem tells_of_returned (hlinked : s.Linked d) (hconn : s.connections q = some conn)
    (hpolls : conn.Polls d.framework b) {answer : BatchStatusResponse}
    (hproc : s.service.procs q = some ⟨.getBatchStatus b, .returned (.status answer)⟩)
    (hid : answer.batchId = b) : s.Tells d q b answer.status := by
  obtain ⟨fails, built, u, hadmission⟩ := hlinked.admitted hconn
  have hadmitted : conn.admission = .admitted (.getBatchStatus b) [] := by
    obtain ⟨batchId, hendpoint, hparse⟩ := hpolls
    rw [← hadmission, HttpRequest.enter, hendpoint]
    simp only [Endpoint.clients, getClients, Endpoint.enter, hparse]
  have hresponse : s.response q = ((Response.status answer).outcome []).map
      (conn.request.respond conn.uuid) := by
    rw [Api.response, hconn, Option.bind_some, HttpConnection.outcome, hadmitted, hproc]
    rfl
  subst hid
  exact ⟨conn, _, answer.errors, hconn, hpolls, hresponse, rfl⟩

/-- Two polls of a batch that is completed, one after the other. -/
def twoPolls : List ApiLabel :=
  [.connect 0 ⟨.getBatchStatus "3", none⟩ "id" 0 fun _ => false, .serve (.call 0 .calm),
    .serve (.finish 0 0), .connect 1 ⟨.getBatchStatus "3", none⟩ "id" 0 fun _ => false,
    .serve (.call 1 .calm), .serve (.finish 1 1)]

/-- The batch that a request polls, and what its poll has answered. -/
def told (s : Api) (q : Pid) : Option Endpoint × Option (BatchId × BatchStatusResponse) :=
  ((s.connections q).map fun conn => conn.request.endpoint, s.service.answerOf q)

theorem tells_of_told (hlinked : s.Linked sampleDeployment) {batchId : String}
    {answer : BatchStatusResponse} (h : s.told q = (some (.getBatchStatus batchId), some (b, answer)))
    (hparse : sampleFramework.parseId batchId = .ok b) (hid : answer.batchId = b) :
    s.Tells sampleDeployment q b answer.status := by
  obtain ⟨hconn, hanswer⟩ := Prod.mk.inj h
  obtain ⟨conn, hconn, hendpoint⟩ := Option.map_eq_some_iff.mp hconn
  exact tells_of_returned hlinked hconn ⟨batchId, hendpoint, hparse⟩
    (Service.returned_of_answerOf hanswer) hid

theorem ended_batch_stays_ended_sample :
    ∃ s s', (initial sampleDb fun _ => none).follow sampleDeployment Label.isCalm
        (twoPolls.take 3) = some s ∧
      s.follow sampleDeployment Label.isCalm (twoPolls.drop 3) = some s' ∧
      s.Tells sampleDeployment 0 3 .completed ∧ s'.Tells sampleDeployment 1 3 .completed ∧
      IngestionBatchStatus.completed ≠ .pending := by
  have hend : ((initial sampleDb fun _ => none).follow sampleDeployment Label.isCalm
      (twoPolls.take 3)).bind (fun s => (s.follow sampleDeployment Label.isCalm
        (twoPolls.drop 3)).map fun s' => ((s.connections 1).isNone, [s.told 0, s'.told 1])) =
      some (true, List.replicate 2
        (some (.getBatchStatus "3"), some (3, ⟨3, .completed, []⟩))) := by
    decide +kernel
  obtain ⟨s, hs, hrest⟩ := Option.bind_eq_some_iff.mp hend
  obtain ⟨s', hs', hfacts⟩ := Option.map_eq_some_iff.mp hrest
  obtain ⟨hlater, htolds⟩ := Prod.mk.inj hfacts
  obtain ⟨htold, htolds⟩ := List.cons.inj htolds
  obtain ⟨htold', -⟩ := List.cons.inj htolds
  have hruns : Runs sampleDeployment (fun _ _ => True) (initial sampleDb fun _ => none) s :=
    runs_of_follow (fun _ _ _ => trivial) hs
  have hruns' : Runs sampleDeployment (fun _ _ => True) s s' :=
    runs_of_follow (fun _ _ _ => trivial) hs'
  have hlinked := linked_of_runs hruns
  have htells := tells_of_told hlinked htold rfl rfl
  have htells' := tells_of_told (hlinked.runs hruns') htold' rfl rfl
  exact ⟨s, s', hs, hs', htells, htells', ended_batch_stays_ended hruns htells nofun hruns'
    (Option.isNone_iff_eq_none.mp hlater) htells'⟩

/-! ## Uploads -/

/-- Only an `HTTPException` is answered with 202. -/
theorem status_of_toHttp {e : Exn} (h : e.isHttp = false) {request : HttpRequest} {uuid : String} :
    (request.respond uuid e.toHttp.handle).status ≠ 202 := by
  cases e with
  | http => cases h
  | _ => exact nofun

theorem quiet_of_admits (hok : ∀ s l, ok s l → Service.Quiet s l) {s : Service} {l : Label}
    (h : Admits ok s l) : s.Quiet l := by
  rcases h with ⟨pid, request, rfl, -⟩ | ⟨-, hl⟩
  · exact nofun
  · exact hok s l hl

/-- A 202 comes from an upload that has returned. -/
theorem accepted_of_response (hok : ∀ s l, ok s l → Service.Quiet s l)
    (hruns : Runs d ok (initial db storage) s) (hconn : s.connections pid = some conn) {file : Bytes}
    (hendpoint : conn.request.endpoint = .ingestEmployees (some file))
    (hresponse : s.response pid = some response) (hstatus : response.status = 202) :
    ∃ b, s.service.procs pid = some ⟨.ingestEmployees b file, .returned (.accepted b)⟩ ∧
      response.body = .json (.obj [("batch_id", .str (toString b))]) := by
  obtain ⟨outcome, hresponds, rfl⟩ := (linked_of_runs hruns).responds hconn hresponse
  rw [hendpoint] at hresponds
  rcases hresponds with @⟨client, e, fails, -, hraises⟩ | ⟨hroute⟩ |
    @⟨u, next, _, status, _, hroute, hproc, houtcome⟩
  · rw [status_of_construct hraises] at hstatus
    cases hstatus
  · cases hroute
  · cases hroute
    have hends := Service.uploaded_of_runs (fun s l hl c f status hlabel hf hcalls =>
      quiet_of_admits hok hl _ c f _ _ status hlabel hf hcalls) (serviceRuns hruns) hproc
    cases status with
    | running rest => cases houtcome
    | cut => cases houtcome
    | returned response =>
        obtain rfl : response = .accepted u := hends
        cases houtcome
        exact ⟨u, hproc, rfl⟩
    | raised e =>
        cases houtcome
        exact absurd hstatus (status_of_toHttp hends)

/-- A client that gets 202 for an employees file, in a run in which the calls of uploads raise no
`HTTPException`. From then on, as long as the ports raise none of the errors of the code: there is
exactly one task for the batch in the response, the task finds its clients built, and a request that
polls this batch is answered with 200, or with 500 if something raises, but never that there is no
such batch. -/
theorem accepted_batch_is_worked_on (hok₀ : ∀ s l, ok₀ s l → Service.Quiet s l)
    (hok : ∀ s l, ok s l → Service.Ported s l) (hruns₀ : Runs d ok₀ (initial db storage) s₀)
    (hconn : s₀.connections pid = some conn)
    {file : Bytes} (hendpoint : conn.request.endpoint = .ingestEmployees (some file))
    (hresponse : s₀.response pid = some response) (hstatus : response.status = 202) :
    ∃ b, response.body = .json (.obj [("batch_id", .str (toString b))]) ∧ ∀ s, Runs d ok s₀ s →
      (∃! task, ∃ status, s.service.procs task = some ⟨.processEmployees b, status⟩) ∧
      (∀ fails, getClients d.environment fails [.cache, .storage] s.clients = (s.clients, .ok ())) ∧
      ∀ q conn response, s₀.connections q = none → s.connections q = some conn →
        conn.Polls d.framework b → s.response q = some response →
        response.status = 200 ∨ response.status = 500 := by
  obtain ⟨b, hproc₀, hbody⟩ := accepted_of_response hok₀ hruns₀ hconn hendpoint hresponse hstatus
  refine ⟨b, hbody, fun s hruns => ?_⟩
  -- the two parts of the run, without their conditions
  have hwhole : Runs d (fun _ _ => True) (initial db storage) s :=
    (runs_mono (fun _ _ _ => trivial) hruns₀).trans (runs_mono (fun _ _ _ => trivial) hruns)
  have hall := serviceRuns hwhole
  have hlinked := linked_of_runs hwhole
  have hkept₀ : s₀.service.Kept d.settings :=
    (Service.kept_initial db storage).runs (serviceRuns hruns₀)
  have hproc := Service.returned_of_runs (serviceRuns hruns) hproc₀
  refine ⟨?_, hlinked.getClients_of_task hproc, ?_⟩
  · obtain ⟨task, status, htask⟩ := Service.scheduled_of_runs hall hproc rfl
    refine ⟨task, ⟨status, htask⟩, ?_⟩
    rintro task' ⟨status', htask'⟩
    exact ((Service.kept_initial db storage).runs hall).orderly.registered.worker htask' htask
  · intro q conn' response' hlater hconn' hpolls hresponse'
    obtain ⟨status, outcome, hpoll, houtcome, rfl⟩ := polls_inv hlinked hconn' hpolls hresponse'
    obtain ⟨batch, hbatch⟩ := Service.batch_of_upload (serviceRuns hruns₀) hproc₀
    have hmeets := Service.found_of_runs (fun s l => ported_of_admits hok) hkept₀ hbatch
      (free_of_runs hruns hlater hconn') (serviceRuns hruns) hpoll
    cases status with
    | running rest => cases houtcome
    | cut => cases houtcome
    | returned response =>
        obtain ⟨answer, rfl, -⟩ := Service.answered_of_runs hkept₀
          (free_of_runs hruns hlater hconn') (serviceRuns hruns) hpoll
        cases houtcome
        exact Or.inl rfl
    | raised e =>
        cases houtcome
        rw [toHttp_of_not_isDomain hmeets]
        exact Or.inr rfl

theorem accepted_batch_is_worked_on_sample :
    ∃ s₀ response, (initial sampleDb fun _ => none).follow sampleDeployment Label.isCalm
        [.connect 0 ⟨.ingestEmployees (some clashingFile), none⟩ "id" 8 fun _ => false,
          .serve (.call 0 .calm), .serve (.call 0 .calm), .serve (.call 0 .calm),
          .serve (.finish 0 1)] = some s₀ ∧ s₀.response 0 = some response ∧
      response.status = 202 ∧
      ∃ b, response.body = .json (.obj [("batch_id", .str (toString b))]) ∧
        ∀ s, Runs sampleDeployment Service.Ported s₀ s →
          (∃! task, ∃ status, s.service.procs task = some ⟨.processEmployees b, status⟩) ∧
          (∀ fails, getClients sampleDeployment.environment fails [.cache, .storage] s.clients =
            (s.clients, .ok ())) ∧
          ∀ q conn response, s₀.connections q = none → s.connections q = some conn →
            conn.Polls sampleFramework b → s.response q = some response →
            response.status = 200 ∨ response.status = 500 := by
  have hend : ((initial sampleDb fun _ => none).follow sampleDeployment Label.isCalm
      [.connect 0 ⟨.ingestEmployees (some clashingFile), none⟩ "id" 8 fun _ => false,
        .serve (.call 0 .calm), .serve (.call 0 .calm), .serve (.call 0 .calm),
        .serve (.finish 0 1)]).map (fun s => ((s.connections 0).map fun conn => conn.request.endpoint,
          (s.response 0).map HttpResponse.status)) =
      some (some (.ingestEmployees (some clashingFile)), some 202) := by
    decide +kernel
  obtain ⟨s₀, hs₀, hfacts⟩ := Option.map_eq_some_iff.mp hend
  obtain ⟨hconn, hresponse⟩ := Prod.mk.inj hfacts
  obtain ⟨conn, hconn, hendpoint⟩ := Option.map_eq_some_iff.mp hconn
  obtain ⟨response, hresponse, hstatus⟩ := Option.map_eq_some_iff.mp hresponse
  have hruns₀ : Runs sampleDeployment Service.Quiet (initial sampleDb fun _ => none) s₀ :=
    runs_of_follow (fun _ _ => Service.quiet_of_isCalm) hs₀
  exact ⟨s₀, response, hs₀, hresponse, hstatus, accepted_batch_is_worked_on (fun _ _ => id)
    (fun _ _ => id) hruns₀ hconn hendpoint hresponse hstatus⟩

end Api

end HiringService
