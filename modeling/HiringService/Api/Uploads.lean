import HiringService.Api.Responses
import HiringService.Service.Uploads

/-!
# What is behind a 200

A client that gets 200 for a departments or jobs file has in its response one count or one error for
every row of the file, and what is counted is committed, in the table of the route and under the
batch of this request.
-/

namespace HiringService

open Python (Json)

/-- What a response with 200 promises about a departments or jobs file: its rows are counted or
reported, and those that are counted are committed under the batch `u`. -/
structure Db.Reports (db : Db) (t : ReferenceTable) (file : Bytes) (u : BatchId) (n : ℕ)
    (errors : List String) : Prop where
  rows : ∃ rows, readFile file = .ok rows ∧ n + errors.length = rows.length
  counted : db.Counted u n
  sourced : ∃ records parseErrors, parseReference t file = .ok (records, parseErrors) ∧
    ∀ t', (db.referenceRowsOf t' u).Sublist
      (if t' = t then records.map (ReferenceRecord.toRow u) else [])

/-- The calls of ingestions raise nothing but outages. -/
def Service.Outages (s : Service) (l : Label) : Prop :=
  ∀ q c f t u records status, l = .call q c → c.fault = some f →
    s.procs q = some ⟨.ingest t u records, status⟩ → f.exn.isOperational = true

theorem Service.outages_of_isCalm {s : Service} {l : Label} (h : l.isCalm = true) : s.Outages l := by
  rintro q c f t u records status rfl hf
  rw [Label.isCalm, hf] at h
  cases h

namespace Api

variable {d : Deployment} {ok : Service → Label → Prop} {db : Db}
  {storage : ObjectKey → Option Bytes} {s : Api} {pid : Pid} {conn : HttpConnection}

/-- An outage is no error of the code. -/
theorem isDomain_of_isOperational {e : Exn} (h : e.isOperational = true) : e.isDomain = false := by
  cases e with
  | operational => rfl
  | _ => cases h

theorem regular_of_admits (hok : ∀ s l, ok s l → Service.Outages s l) {s : Service} {l : Label}
    (h : Admits ok s l) : Service.Regular s l := by
  rcases h with ⟨pid, request, rfl, hchecked⟩ | ⟨hl, hokl⟩
  · refine ⟨?_, nofun⟩
    rintro q t u records ⟨⟩
    exact (hchecked t u records rfl).1
  · refine ⟨?_, hok s l hokl⟩
    rintro q t u records rfl
    cases hl

variable {t : ReferenceTable} {file : Bytes} {response : HttpResponse}

/-- A 200 comes from a use case that has returned. -/
theorem ingested_of_response (hok : ∀ s l, ok s l → Service.Outages s l)
    (hruns : Runs d ok (initial db storage) s) (hconn : s.connections pid = some conn)
    (hendpoint : conn.request.endpoint = .ingest t (some file))
    (hresponse : s.response pid = some response) (hstatus : response.status = 200) :
    ∃ u records parseErrors reply, getRecords (parseReference t) file = .ok (records, parseErrors) ∧
      s.service.procs pid = some ⟨.ingest t u records, .returned (.ingested reply)⟩ ∧
      IngestReference.Reports records reply ∧
      response.body = .json (.obj [("created_count", .int reply.createdCount),
        ("errors", errorsJson (reply.errors ++ parseErrors))]) := by
  obtain ⟨outcome, hresponds, rfl⟩ := (linked_of_runs hruns).responds hconn hresponse
  rw [hendpoint] at hresponds
  rcases hresponds with ⟨hclient, -⟩ | @⟨u, _, hroute⟩ |
    @⟨u, next, _, status, _, hroute, hproc, houtcome⟩
  · -- no client is built for an ingestion
    cases hclient
  · -- the file was refused, so the status is not 200
    rw [Endpoint.enter] at hroute
    split at hroute
    · rename_i e hrefused
      cases hroute
      rcases getRecords_error hrefused with hunhandled | rfl | rfl
      · rw [hunhandled] at hstatus
        cases hstatus
      · cases hstatus
      · cases hstatus
    · cases hroute
  · rw [Endpoint.enter] at hroute
    split at hroute
    · cases hroute
    · rename_i records parseErrors hrecords
      cases hroute
      -- the request was admitted: its process has returned, and it can only have raised an outage
      have hends : (Request.ingest t u records).EndsAs status := by
        refine Service.meets_of_runs (ends_program _ _) ?_ (serviceRuns hruns) hproc
        intro s l c op k r w hl hlabel hcalls hexec
        have houtage := (regular_of_admits hok hl).2
        exact may_of_exec (fun f hf => isDomain_of_isOperational
          (houtage pid c f t u records _ hlabel hf hcalls)) hexec
      cases status with
      | running rest => cases houtcome
      | cut => cases houtcome
      | returned response =>
          obtain ⟨reply, rfl, hreports⟩ := hends
          cases houtcome
          exact ⟨u, records, _, reply, hrecords, hproc, hreports, rfl⟩
      | raised e =>
          rcases outcome_of_raised houtcome with rfl | ⟨hdomain, rfl⟩
          · cases hstatus
          · obtain ⟨cause, -, rfl⟩ := hends hdomain
            cases hstatus

/-- A client that gets 200 for a departments or jobs file, in a run in which the calls of ingestions
raise nothing but outages: the response is that of the ingestion of this request; each row of the
file is counted or reported in it, and the rows that are counted are committed under the batch of
this ingestion. -/
theorem ingested_file_is_committed (hok : ∀ s l, ok s l → Service.Outages s l)
    (hruns : Runs d ok (initial db storage) s) (hconn : s.connections pid = some conn)
    (hendpoint : conn.request.endpoint = .ingest t (some file))
    (hresponse : s.response pid = some response) (hstatus : response.status = 200) :
    ∃ (u : BatchId) (records : List ReferenceRecord) (reply : IngestionResponse)
      (errors : List String),
      s.service.procs pid = some ⟨.ingest t u records, .returned (.ingested reply)⟩ ∧
      response.body = .json (.obj [("created_count", .int reply.createdCount),
        ("errors", errorsJson errors)]) ∧
      s.service.world.db.Reports t file u reply.createdCount errors := by
  obtain ⟨u, records, parseErrors, reply, hrecords, hproc, hreports, hbody⟩ :=
    ingested_of_response hok hruns hconn hendpoint hresponse hstatus
  have hservice := serviceRuns hruns
  have hattended := Service.attended_of_runs (fun s l => regular_of_admits hok) hservice
  have hsourced := ((Service.kept_initial db storage).runs hservice).sourced hproc [] nofun
  obtain ⟨reply', hreply', hcounted⟩ := (hattended.accounted hproc).counted _ rfl
  cases hreply'
  have hparse := (getRecords_ok hrecords).1
  refine ⟨u, records, reply, reply.errors ++ parseErrors, hproc, hbody, ?_, hcounted, records,
    parseErrors, hparse, hsourced⟩
  rw [parseReference_eq] at hparse
  obtain ⟨rows, hrows, hlength⟩ := parseFile_length hparse
  refine ⟨rows, hrows, ?_⟩
  rw [IngestReference.Reports] at hreports
  rw [List.length_append]
  omega

theorem ingested_file_is_committed_sample :
    ∃ s conn response, (initial sampleDb fun _ => none).follow sampleDeployment Label.isCalm
        departmentsUpload = some s ∧ s.connections 0 = some conn ∧
      s.response 0 = some response ∧
      ∃ (u : BatchId) (records : List ReferenceRecord) (reply : IngestionResponse)
        (errors : List String),
        s.service.procs 0 = some ⟨.ingest .departments u records, .returned (.ingested reply)⟩ ∧
        response.body = .json (.obj [("created_count", .int reply.createdCount),
          ("errors", errorsJson errors)]) ∧
        s.service.world.db.Reports .departments [50, 44, 65, 10, 66] u reply.createdCount
          errors := by
  have hend : ((initial sampleDb fun _ => none).follow sampleDeployment Label.isCalm
      departmentsUpload).map (fun s => ((s.connections 0).map fun conn => conn.request.endpoint,
        (s.response 0).map HttpResponse.status)) =
      some (some (.ingest .departments (some [50, 44, 65, 10, 66])), some 200) := by
    decide +kernel
  obtain ⟨s, hs, hfacts⟩ := Option.map_eq_some_iff.mp hend
  obtain ⟨hconn, hresponse⟩ := Prod.mk.inj hfacts
  obtain ⟨conn, hconn, hendpoint⟩ := Option.map_eq_some_iff.mp hconn
  obtain ⟨response, hresponse, hstatus⟩ := Option.map_eq_some_iff.mp hresponse
  have hruns : Runs sampleDeployment Service.Outages (initial sampleDb fun _ => none) s :=
    runs_of_follow (fun _ _ => Service.outages_of_isCalm) hs
  exact ⟨s, conn, response, hs, hconn, hresponse,
    ingested_file_is_committed (fun _ _ => id) hruns hconn hendpoint hresponse hstatus⟩

end Api

end HiringService
