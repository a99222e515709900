import HiringService.Calls
import HiringService.Interference
import Mathlib.Logic.Relation

/-!
# The running service

Any number of requests and background tasks, interleaved call by call. A step lets a request arrive,
makes the next call of a process, ends a process, cuts it off, or lets time pass. The session of a
process is closed when it ends, which rolls back what is not committed; the task of an employees
upload starts with a session of its own when the upload has returned.
-/

namespace HiringService

open Effect (Program)

/-! ## Requests -/

/-- A request or a background task. `u` is the id that `uuid4()` returns in it. -/
inductive Request
  | ingest (t : ReferenceTable) (u : BatchId) (records : List ReferenceRecord)
  | ingestEmployees (u : BatchId) (file : Bytes)
  | processEmployees (b : BatchId)
  | getBatchStatus (b : BatchId)
  | getMetric (metric : Metric)
  deriving DecidableEq

/-- What a request returns. -/
inductive Response
  | ingested (response : IngestionResponse)
  | accepted (b : BatchId)
  | processed
  | status (response : BatchStatusResponse)
  | metric (rows : List Row)

/-- The code of a request. -/
def Request.program (cfg : Settings) : Request → Prog Response
  | .ingest t u records => do return .ingested (← HiringService.ingest t u records)
  | .ingestEmployees u file => do return .accepted (← HiringService.ingestEmployees cfg u file)
  | .processEmployees b => do
      streamAndProcess b cfg
      return .processed
  | .getBatchStatus b => do return .status (← HiringService.getBatchStatus cfg b)
  | .getMetric metric => do return .metric (← HiringService.getMetric metric)

/-- Whether a client can make the request. -/
def Request.isRoute : Request → Bool
  | .processEmployees _ => false
  | _ => true

/-- The ids that are created for a request. -/
def Request.fresh : Request → List BatchId
  | .ingest _ u _ => [u]
  | .ingestEmployees u _ => [u]
  | _ => []

/-- The task that the route schedules with `background_tasks.add_task`. -/
def Request.task : Request → Response → Option Request
  | .ingestEmployees _ _, .accepted b => some (.processEmployees b)
  | _, _ => none

/-- The calls that a request can make. -/
def Request.Calls (cfg : Settings) : Request → Op → Prop
  | .ingest t u _ => Op.OfIngestion t u
  | .ingestEmployees u _ => Op.OfUpload cfg u
  | .processEmployees b => Op.OfWorker b
  | .getBatchStatus b => Op.OfPoll b
  | .getMetric metric => Op.OfMetric metric

/-- What a request can return. -/
def Request.Answers : Request → Response → Prop
  | .ingestEmployees u _, response => response = .accepted u
  | _, _ => True

theorem uses_program (cfg : Settings) (request : Request) :
    (request.program cfg).Uses (request.Calls cfg) := by
  cases request with
  | ingest t u records =>
      refine Program.Uses.bind ?_ fun _ => trivial
      cases t <;> exact uses_ingestion records
  | ingestEmployees u file =>
      exact Program.Uses.bind (uses_ingestEmployees cfg u file) fun _ => trivial
  | processEmployees b => exact Program.Uses.bind uses_streamAndProcess fun _ => trivial
  | getBatchStatus b => exact Program.Uses.bind (uses_getBatchStatus cfg b) fun _ => trivial
  | getMetric metric => exact Program.Uses.bind (uses_getMetric metric) fun _ => trivial

theorem returns_program (cfg : Settings) (request : Request) :
    (request.program cfg).Returns request.Answers := by
  cases request with
  | ingestEmployees u file =>
      have hid : (ingestEmployees cfg u file).Returns (· = u) :=
        (Program.returns_true (call (.uploadFile (employeesKey cfg u) file))).bind fun _ _ =>
          (Program.returns_true (Uow.batchAdd u .pending)).bind fun _ _ =>
            (Program.returns_true Uow.commit).bind fun _ _ => rfl
      exact Program.Returns.bind hid fun b hb => congrArg Response.accepted hb
  | _ => exact Program.returns_true _

/-! ## Processes and steps -/

/-- How far a process is. -/
inductive Status
  | running (rest : Prog Response)
  | returned (response : Response)
  | raised (e : Exn)
  | cut

/-- A process: its request and how far it is. -/
structure Process where
  request : Request
  status : Status

/-- The state of the service. `issued` are the ids that `uuid4()` will not return again. -/
structure Service where
  world : World
  procs : Pid → Option Process
  issued : List BatchId

/-- What happens in a step. -/
inductive Label
  | arrive (pid : Pid) (request : Request)
  | call (pid : Pid) (c : Choice)
  | finish (pid task : Pid)
  | cut (pid : Pid)
  | tick (n : ℕ)
  | expire (key : String)

/-- The processes that a label names. -/
def Label.pids : Label → List Pid
  | .arrive pid _ => [pid]
  | .call pid _ => [pid]
  | .finish pid task => [pid, task]
  | .cut pid => [pid]
  | _ => []

namespace Service

/-- The state in which `pid` has become `proc` and the world `w`. -/
def set (s : Service) (pid : Pid) (proc : Process) (w : World) : Service :=
  { s with world := w, procs := Function.update s.procs pid (some proc) }

/-- Start a process for `request`. -/
def start (cfg : Settings) (s : Service) (pid : Pid) (request : Request) : Service :=
  s.set pid ⟨request, .running (request.program cfg)⟩ s.world

/-- One step; `none` when the label does not fit the state. -/
def step (cfg : Settings) (s : Service) : Label → Option Service
  | .arrive pid request =>
      if request.isRoute ∧ (s.procs pid).isNone ∧ ∀ u ∈ request.fresh, u ∉ s.issued then
        some { s.start cfg pid request with issued := request.fresh ++ s.issued }
      else none
  | .call pid c =>
      match s.procs pid with
      | some ⟨request, .running (.call op k)⟩ =>
          match exec pid c s.world op with
          | none => none
          | some (r, w) => some (s.set pid ⟨request, .running (k r)⟩ w)
      | _ => none
  | .finish pid task =>
      match s.procs pid with
      | some ⟨request, .running (.pure response)⟩ =>
          let ended := s.set pid ⟨request, .returned response⟩ (s.world.close pid)
          match request.task response with
          | none => some ended
          | some next => if (ended.procs task).isNone then some (ended.start cfg task next) else none
      | some ⟨request, .running (.throw e)⟩ =>
          some (s.set pid ⟨request, .raised e⟩ (s.world.close pid))
      | _ => none
  | .cut pid =>
      match s.procs pid with
      | some ⟨request, .running _⟩ => some (s.set pid ⟨request, .cut⟩ (s.world.close pid))
      | _ => none
  | .tick n => some { s with world := { s.world with clock := s.world.clock + n } }
  | .expire key =>
      some { s with world := { s.world with cache := Function.update s.world.cache key none } }

/-- The service before any request. -/
def initial (db : Db) (storage : ObjectKey → Option Bytes) : Service where
  world := World.initial db storage
  procs _ := none
  issued := db.batches.map IngestionBatch.id ++ db.departments.map ReferenceRow.batchId ++
    db.jobs.map ReferenceRow.batchId ++ db.employees.map EmployeeRow.batchId

/-- Take the steps of a list of labels, as long as they pass a test. -/
def follow (cfg : Settings) (test : Service → Label → Bool) : Service → List Label → Option Service
  | s, [] => some s
  | s, l :: ls =>
      if test s l then
        match s.step cfg l with
        | none => none
        | some s' => s'.follow cfg test ls
      else none

/-- A step that meets the condition `ok`. -/
def Next (cfg : Settings) (ok : Service → Label → Prop) (s s' : Service) : Prop :=
  ∃ l, ok s l ∧ s.step cfg l = some s'

/-- A run whose steps all meet the condition `ok`. -/
abbrev Runs (cfg : Settings) (ok : Service → Label → Prop) : Service → Service → Prop :=
  Relation.ReflTransGen (Next cfg ok)

/-- Following labels is a run, if the condition follows from the test and from what holds of the
states on the way. -/
theorem runs_of_follow {cfg : Settings} {test : Service → Label → Bool}
    {ok : Service → Label → Prop} {I : Service → Prop}
    (htest : ∀ s l, I s → test s l = true → ok s l) {ls : List Label}
    (hstep : ∀ {s s' l}, l ∈ ls → I s → s.step cfg l = some s' → I s') {s s' : Service} (hI : I s)
    (h : s.follow cfg test ls = some s') : Runs cfg ok s s' ∧ I s' := by
  induction ls generalizing s with
  | nil =>
      cases h
      exact ⟨.refl, hI⟩
  | cons l ls ih =>
      rw [follow] at h
      by_cases hl : test s l = true
      · rw [if_pos hl] at h
        rcases hs : s.step cfg l with _ | s₁
        · rw [hs] at h
          cases h
        · rw [hs] at h
          have hI₁ := hstep List.mem_cons_self hI hs
          have hrest := ih (fun hmem => hstep (List.mem_cons_of_mem l hmem)) hI₁ h
          exact ⟨.head ⟨l, htest s l hI hl, hs⟩ hrest.1, hrest.2⟩
      · rw [if_neg hl] at h
        cases h

/-- Following labels is a run, if the test is at least as strict as the condition. -/
theorem runs_of_test {cfg : Settings} {test : Service → Label → Bool} {ok : Service → Label → Prop}
    (htest : ∀ s l, test s l = true → ok s l) {ls : List Label} {s s' : Service}
    (h : s.follow cfg test ls = some s') : Runs cfg ok s s' :=
  (runs_of_follow (I := fun _ => True) (fun s l _ => htest s l) (fun _ _ _ => trivial) trivial h).1

end Service

end HiringService
