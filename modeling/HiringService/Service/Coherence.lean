import HiringService.Service.Batch

/-!
# When the metrics cache is coherent after a worker

A worker run beside any number of metrics requests. The worker deletes the metrics keys after its
last commit (`Owes`), so what the cache holds afterwards was set after the deletion. It is current
unless a request had its result from before the last commit and sets it after the deletion: when no
such request is in flight at the deletion (`Timely`), the cache is coherent once the worker has
returned.
-/

namespace HiringService

open Effect (Program)

/-! ## The worker -/

/-- The program returns only right after it has deleted the metrics keys. -/
inductive Owes {α : Type} : Prog α → Prop
  | throw (e : Exn) : Owes (.throw e)
  | delete {k} {a : α} (hok : k (.ok ()) = .pure a) (herror : ∀ e, Owes (k (.error e))) :
      Owes (.call (.cacheDelete metricsCacheKeys) k)
  | call {op k} (hop : ∀ keys, op ≠ .cacheDelete keys) (hk : ∀ r, Owes (k r)) : Owes (.call op k)

section Owes

variable {α β : Type}

/-- A part without deletions, and one that deletes at its end. -/
theorem owes_bind {p : Prog α} {f : α → Prog β} (hp : p.Uses fun op => ∀ keys, op ≠ .cacheDelete keys)
    (hf : ∀ a, Owes (f a)) : Owes (p.bind f) := by
  induction p with
  | pure a => exact hf a
  | throw e => exact .throw e
  | call op k ih => exact .call hp.1 fun r => ih r (hp.2 r)

/-- A `try` whose body and handler delete at their ends. -/
theorem Owes.tryExcept {p : Prog α} {handler : Exn → Prog α} (hp : Owes p)
    (hh : ∀ e, Owes (handler e)) : Owes (p.tryExcept handler) := by
  induction hp with
  | throw e => exact hh e
  | @delete k a hok _ ih =>
      have hpure : (k (.ok ())).tryExcept handler = .pure a := by
        rw [hok]
        rfl
      exact .delete hpure ih
  | call hop _ ih => exact .call hop ih

/-- The value that is returned does not matter. -/
theorem Owes.map {p : Prog α} (hp : Owes p) (f : α → β) : Owes (p.bind fun a => .pure (f a)) := by
  induction hp with
  | throw e => exact .throw e
  | @delete k a hok _ ih =>
      have hpure : ((k (.ok ())).bind fun a => .pure (f a)) = .pure (f a) := by
        rw [hok]
        rfl
      exact .delete hpure ih
  | call hop _ ih => exact .call hop ih

/-- The worker returns only after it has deleted the metrics keys. -/
theorem owes_worker (cfg : Settings) (b : BatchId) :
    Owes ((Request.processEmployees b).program cfg) := by
  refine Owes.map (Owes.tryExcept ?_ fun exc => ?_) _
  · refine owes_bind (uses_ingestFile.mono fun _ h => h.ofWriter.ne_cacheDelete) fun errors => ?_
    refine owes_bind ((uses_completeBatch errors).mono fun _ h => h.ne_cacheDelete) fun _ => ?_
    exact .delete rfl fun e => .throw e
  · exact owes_bind (uses_markBatchFailed.mono fun _ h => h.ne_cacheDelete) fun _ => .throw exc

end Owes

/-! ## A metrics request -/

section Metric

/-- What follows the call that sets the key. -/
def afterSet (rows : List Row) : Except Exn Unit → Prog Response
  | .ok _ => .pure (.metric rows)
  | .error e => .throw e

/-- What follows the query. -/
def afterQuery (metric : Metric) : Except Exn (List Row) → Prog Response
  | .ok rows => .call (.cacheSet metric.cacheKey rows metricsCacheTtl) (afterSet rows)
  | .error e => .throw (.analyticsUnavailable e)

/-- What follows the call that gets the key. -/
def afterGet (metric : Metric) : Except Exn (Option (List Row)) → Prog Response
  | .ok (some rows) => .pure (.metric rows)
  | .ok none => .call (.query metric) (afterQuery metric)
  | .error e => .throw e

/-- How far a metrics request can be. -/
inductive Stage (metric : Metric) : Prog Response → Prop
  | get : Stage metric (.call (.cacheGet metric.cacheKey) (afterGet metric))
  | query : Stage metric (.call (.query metric) (afterQuery metric))
  | set (rows : List Row) :
      Stage metric (.call (.cacheSet metric.cacheKey rows metricsCacheTtl) (afterSet rows))
  | returned (response : Response) : Stage metric (.pure response)
  | raised (e : Exn) : Stage metric (.throw e)

/-- A metrics request begins with the call that gets the key. -/
theorem program_getMetric (cfg : Settings) (metric : Metric) :
    (Request.getMetric metric).program cfg =
      .call (.cacheGet metric.cacheKey) (afterGet metric) := by
  refine congrArg (Program.call _) (funext fun r => ?_)
  rcases r with e | (_ | rows)
  · rfl
  · refine congrArg (Program.call _) (funext fun r => ?_)
    rcases r with e | rows
    · rfl
    · refine congrArg (Program.call _) (funext fun r => ?_)
      rcases r with e | _
      · rfl
      · rfl
  · rfl

/-- The call of a stage leads to a stage, and a result that is about to be set is that of the query
on the committed database. -/
theorem Stage.next {metric : Metric} {op : Op} {k : Except Exn (Reply op) → Prog Response}
    (h : Stage metric (.call op k)) {pid : Pid} {c : Choice} {w w' : World}
    {r : Except Exn (Reply op)} (hexec : exec pid c w op = some (r, w')) :
    Stage metric (k r) ∧ ∀ key value ttl k', k r = .call (.cacheSet key value ttl) k' →
      value = metric.rows w.db := by
  cases h with
  | get =>
      rcases r with e | (_ | rows)
      · exact ⟨.raised e, fun _ _ _ _ => nofun⟩
      · exact ⟨.query, fun _ _ _ _ => nofun⟩
      · exact ⟨.returned _, fun _ _ _ _ => nofun⟩
  | query =>
      rcases r with e | rows
      · exact ⟨.raised _, fun _ _ _ _ => nofun⟩
      · refine ⟨.set rows, fun key value ttl k' hk => ?_⟩
        cases hk
        exact (exec_query hexec).2 rows rfl
  | set rows =>
      rcases r with e | _
      · exact ⟨.raised e, fun _ _ _ _ => nofun⟩
      · exact ⟨.returned _, fun _ _ _ _ => nofun⟩

/-- A metrics request sets the key of its metric. -/
theorem Stage.key_of_set {metric : Metric} {key : String} {value : List Row} {ttl : ℕ}
    {k : Except Exn Unit → Prog Response} (h : Stage metric (.call (.cacheSet key value ttl) k)) :
    key = metric.cacheKey := by
  cases h
  rfl

/-- The key of a metric is one of those that are deleted. -/
theorem cacheKey_mem (metric : Metric) : metric.cacheKey ∈ metricsCacheKeys := by
  cases metric <;> decide

end Metric

namespace Service

variable {cfg : Settings} {s s' : Service} {l : Label} {p : Pid} {b : BatchId}

/-- A worker that starts in the world `w`, and nobody else. -/
def working (cfg : Settings) (w : World) (p : Pid) (b : BatchId) : Service :=
  Service.start cfg ⟨w, fun _ => none, []⟩ p (.processEmployees b)

/-- Each metrics key is absent or holds the result of its query on the committed database. -/
def Coherent (s : Service) : Prop :=
  ∀ metric : Metric, s.world.cache metric.cacheKey = none ∨
    s.world.cache metric.cacheKey = some (metric.rows s.world.db)

/-- Only metrics requests arrive, and when a worker deletes the metrics keys, no request is about to
set a key to anything but the result of its query on the committed database. -/
structure Timely (s : Service) (l : Label) : Prop where
  arrivals : ∀ q request, l = .arrive q request → ∃ metric, request = .getMetric metric
  deletion : ∀ p c b keys k, l = .call p c →
    s.procs p = some ⟨.processEmployees b, .running (.call (.cacheDelete keys) k)⟩ →
    ∀ q metric key value ttl k',
      s.procs q = some ⟨.getMetric metric, .running (.call (.cacheSet key value ttl) k')⟩ →
      value = metric.rows s.world.db

/-- The cache is coherent, and every result that is about to be set is current. -/
structure Settled (s : Service) : Prop where
  coherent : s.Coherent
  current : ∀ q metric key value ttl k,
    s.procs q = some ⟨.getMetric metric, .running (.call (.cacheSet key value ttl) k)⟩ →
    value = metric.rows s.world.db

/-- What is known when the worker is at `status`. -/
def WorkerAt (s : Service) : Status → Prop
  | .running rest => Owes rest ∨ ((∃ response, rest = .pure response) ∧ s.Settled)
  | .returned _ => s.Settled
  | _ => True

/-- What is known of the worker `p` and of the requests beside it. -/
structure Measuring (p : Pid) (b : BatchId) (s : Service) : Prop where
  worker : ∃ status, s.procs p = some ⟨.processEmployees b, status⟩ ∧ s.WorkerAt status
  others : ∀ {q request status}, q ≠ p → s.procs q = some ⟨request, status⟩ →
    ∃ metric, request = .getMetric metric ∧ ∀ rest, status = .running rest → Stage metric rest

/-- Beside the worker there are only metrics requests, each at one of its stages. -/
theorem Measuring.others_step (h : s.Measuring p b) (hok : Timely s l) (hmove : Move cfg s l s')
    {q : Pid} {request : Request} {status : Status} (hq : q ≠ p)
    (hproc' : s'.procs q = some ⟨request, status⟩) :
    ∃ metric, request = .getMetric metric ∧ ∀ rest, status = .running rest → Stage metric rest := by
  rcases hmove.turn q with ⟨hproc, -, -⟩ | ⟨-, hproc, -, -, hstarts⟩ |
    ⟨-, hproc, hexec, hnext⟩ | ⟨hproc, hnext, hends, -⟩
  · exact h.others hq (hproc.symm.trans hproc')
  · cases hproc.symm.trans hproc'
    cases hstarts with
    | arrive =>
        obtain ⟨metric, rfl⟩ := hok.arrivals _ _ rfl
        refine ⟨metric, rfl, ?_⟩
        rintro _ ⟨⟩
        rw [program_getMetric]
        exact .get
    | @schedule _ pid _ _ _ htask hupload =>
        -- neither the worker nor a metrics request schedules a task
        obtain ⟨u, file, b', rfl, -, -⟩ := Request.task_eq_some htask
        obtain ⟨status, hworker, -⟩ := h.worker
        by_cases hpid : pid = p
        · subst hpid
          cases hworker.symm.trans hupload
        · obtain ⟨_, hmetric, -⟩ := h.others hpid hupload
          cases hmetric
  · cases hnext.symm.trans hproc'
    obtain ⟨metric, rfl, hstage⟩ := h.others hq hproc
    refine ⟨metric, rfl, ?_⟩
    rintro _ ⟨⟩
    exact ((hstage _ rfl).next hexec).1
  · cases hnext.symm.trans hproc'
    obtain ⟨metric, rfl, -⟩ := h.others hq hproc
    refine ⟨metric, rfl, ?_⟩
    rintro rest rfl
    cases hends

/-- Where the worker makes no call, a step publishes nothing. -/
theorem Measuring.db_eq (h : s.Measuring p b) (hmove : Move cfg s l s')
    (hidle : ∀ op k, s.procs p ≠ some ⟨.processEmployees b, .running (.call op k)⟩) :
    s'.world.db = s.world.db := by
  obtain ⟨actor, hshift⟩ := hmove.shift
  rcases hshift.db with hsame | ⟨q, request, -, ⟨c, k, -, hproc⟩, -⟩
  · exact hsame
  · obtain ⟨status, hworker, -⟩ := h.worker
    by_cases hq : q = p
    · subst hq
      cases hworker.symm.trans hproc
      exact absurd hproc (hidle _ _)
    · obtain ⟨metric, -, hstage⟩ := h.others hq hproc
      cases hstage _ rfl

/-- Once the cache has settled it stays so. -/
theorem Settled.step (hs : s.Settled) (h : s.Measuring p b) (hmove : Move cfg s l s')
    (hidle : ∀ op k, s.procs p ≠ some ⟨.processEmployees b, .running (.call op k)⟩) :
    s'.Settled := by
  have hdb := h.db_eq hmove hidle
  obtain ⟨status, hworker, -⟩ := h.worker
  refine ⟨fun metric => ?_, fun q metric key value ttl k hproc' => ?_⟩
  · -- a value that is put into the cache comes from a request that has read the rows of now
    rw [hdb]
    rcases hmove.cache metric.cacheKey with hsame | hnone | ⟨q, request, value, ttl, k, hproc, hset⟩
    · rw [hsame]
      exact hs.coherent metric
    · exact Or.inl hnone
    · right
      have hq : q ≠ p := by
        rintro rfl
        cases hworker.symm.trans hproc
        exact hidle _ _ hproc
      obtain ⟨metric', rfl, hstage⟩ := h.others hq hproc
      obtain rfl := cacheKey_injective (hstage _ rfl).key_of_set
      rw [hset, hs.current _ _ _ _ _ _ hproc]
  · rw [hdb]
    rcases hmove.turn q with ⟨hproc, -, -⟩ | ⟨-, hproc, -, -, -⟩ |
      ⟨-, hproc, hexec, hnext⟩ | ⟨-, hnext, hends, -⟩
    · exact hs.current _ _ _ _ _ _ (hproc.symm.trans hproc')
    · have hprogram := hproc.symm.trans hproc'
      simp only [Option.some.injEq, Process.mk.injEq, Status.running.injEq] at hprogram
      obtain ⟨rfl, hprogram⟩ := hprogram
      -- a request that arrives begins with the lookup in the cache
      rw [program_getMetric] at hprogram
      cases hprogram
    · have hq : q ≠ p := by
        rintro rfl
        cases hworker.symm.trans hproc
        exact hidle _ _ hproc
      obtain ⟨metric', rfl, hstage⟩ := h.others hq hproc
      have hrest := hnext.symm.trans hproc'
      simp only [Option.some.injEq, Process.mk.injEq, Status.running.injEq] at hrest
      obtain ⟨hmetric, hrest⟩ := hrest
      cases hmetric
      exact ((hstage _ rfl).next hexec).2 _ _ _ _ hrest
    · cases hnext.symm.trans hproc'
      cases hends

/-- The deletion settles the cache, if it overtakes no request. -/
theorem settled_of_delete (hok : Timely s l) {c : Choice}
    {k : Except Exn Unit → Prog Response} (hlabel : l = .call p c)
    (hproc : s.procs p = some ⟨.processEmployees b, .running (.call (.cacheDelete metricsCacheKeys) k)⟩)
    (hexec : exec p c s.world (.cacheDelete metricsCacheKeys) = some (.ok (), s'.world))
    (hmove : Move cfg s l s') : s'.Settled := by
  obtain ⟨hdb, -, hdropped⟩ := exec_cacheDelete hexec
  obtain ⟨-, hnone⟩ := hdropped.resolve_right fun ⟨_, _, hr⟩ => nomatch hr
  refine ⟨fun metric => Or.inl (hnone _ (cacheKey_mem metric)), ?_⟩
  intro q metric key value ttl k' hproc'
  rw [show s'.world.db = s.world.db from hdb]
  rcases hmove.turn q with ⟨hsame, -, -⟩ | ⟨-, -, -, -, hstarts⟩ | ⟨hcall, hq, -, hnext⟩ |
    ⟨-, hnext, hends, -⟩
  · exact hok.deletion _ _ _ _ _ hlabel hproc _ _ _ _ _ _ (hsame.symm.trans hproc')
  · rw [hlabel] at hstarts
    cases hstarts
  · rw [hlabel] at hcall
    cases hcall
    cases hproc.symm.trans hq
    cases hnext.symm.trans hproc'
  · cases hnext.symm.trans hproc'
    cases hends

/-- One step of the worker or of a metrics request. -/
theorem Measuring.step (h : s.Measuring p b) (hok : Timely s l) (hstep : s.step cfg l = some s') :
    s'.Measuring p b := by
  have hmove := move_of_step hstep
  refine ⟨?_, fun hq hproc' => h.others_step hok hmove hq hproc'⟩
  obtain ⟨status, hworker, hat⟩ := h.worker
  -- a worker that has settled the cache makes no more calls
  have hkeep : s.Settled → (∀ op k, status ≠ .running (.call op k)) → s'.Settled := by
    intro hs hstatus
    refine hs.step h hmove fun op k hproc => ?_
    cases hworker.symm.trans hproc
    exact hstatus _ _ rfl
  rcases hmove.turn p with ⟨hsame, -, -⟩ | ⟨hnew, -, -, -, -⟩ | ⟨hlabel, hproc, hexec, hnext⟩ |
    ⟨hproc, hnext, hends, -⟩
  · refine ⟨status, hsame.trans hworker, ?_⟩
    rcases status with rest | _ | _ | _
    · rcases hat with howes | ⟨⟨response, rfl⟩, hs⟩
      · exact Or.inl howes
      · exact Or.inr ⟨⟨response, rfl⟩, hkeep hs fun _ _ => nofun⟩
    · exact hkeep hat fun _ _ => nofun
    · trivial
    · trivial
  · cases hnew.symm.trans hworker
  · cases hworker.symm.trans hproc
    refine ⟨_, hnext, ?_⟩
    rcases hat with howes | ⟨⟨response, hrest⟩, -⟩
    · cases howes with
      | @delete k a hpure herror =>
          rename_i r
          rcases r with e | _
          · exact Or.inl (herror e)
          · exact Or.inr ⟨⟨a, hpure⟩, settled_of_delete hok hlabel hproc hexec hmove⟩
      | call _ hk => exact Or.inl (hk _)
    · cases hrest
  · cases hworker.symm.trans hproc
    refine ⟨_, hnext, ?_⟩
    cases hends with
    | returned response =>
        rcases hat with howes | ⟨-, hs⟩
        · cases howes
        · exact hkeep hs fun _ _ => nofun
    | raised e => trivial
    | cut => trivial

/-- A worker that starts owes its deletion. -/
theorem measuring_working (w : World) : (working cfg w p b).Measuring p b where
  worker := ⟨_, set_procs_self p _ w, Or.inl (owes_worker cfg b)⟩
  others hq hproc := by
    cases (set_procs_of_ne hq _ w).symm.trans hproc

/-- In a run in which the deletion overtakes no request, each metrics key is absent from the cache
or current once the worker has returned, whoever is in flight. -/
theorem cache_coherent_after_worker {w : World} (hruns : Runs cfg Timely (working cfg w p b) s)
    {response : Response}
    (hreturned : s.procs p = some ⟨.processEmployees b, .returned response⟩) : s.Coherent := by
  have hmeasuring : s.Measuring p b := by
    clear hreturned
    induction hruns with
    | refl => exact measuring_working w
    | tail _ hnext ih =>
        obtain ⟨l, hok, hstep⟩ := hnext
        exact ih.step hok hstep
  obtain ⟨status, hworker, hat⟩ := hmeasuring.worker
  cases hworker.symm.trans hreturned
  exact hat.coherent

/-- The start of the samples: the worker of a file with one employee. -/
def workingSample : Service :=
  working sampleSettings (World.initial sampleDb fun _ => some (sampleFile [65])) 0 7

/-- A request misses the cache before the worker starts, and asks the database after the
deletion. -/
def punctualRun : List Label :=
  [.arrive 1 (.getMetric .hiresByQuarter), .call 1 .calm] ++ List.replicate 6 (.call 0 .calm) ++
    [.finish 0 0, .call 1 .calm, .call 1 .calm, .finish 1 1]

/-- A request asks the database before the worker starts, and sets the key after the deletion. -/
def overtakenRun : List Label :=
  [.arrive 1 (.getMetric .hiresByQuarter), .call 1 .calm, .call 1 .calm] ++
    List.replicate 6 (.call 0 .calm) ++ [.finish 0 0, .call 1 .calm, .finish 1 1]

/-- A test for the steps of a worker and one request: the request is not about to set an old
result. -/
def timelyStep (s : Service) : Label → Bool
  | .arrive _ request => request = .getMetric .hiresByQuarter
  | .call _ _ => (List.range 2).all fun q =>
      match s.procs q with
      | some ⟨.getMetric metric, .running (.call (.cacheSet _ value _) _)⟩ =>
          value = metric.rows s.world.db
      | _ => true
  | _ => true

/-- The computable condition of the sample implies the one of the theorem. -/
theorem timely_of_timelyStep (s : Service) (l : Label) (hs : s.Below 2)
    (h : timelyStep s l = true) : Timely s l := by
  refine ⟨?_, ?_⟩
  · rintro q request rfl
    exact ⟨_, of_decide_eq_true h⟩
  · rintro p c b keys k rfl - q metric key value ttl k' hproc
    have hq : q < 2 := by
      by_contra hle
      rw [hs q (Nat.not_lt.mp hle)] at hproc
      cases hproc
    have hcurrent := List.all_eq_true.mp h q (List.mem_range.mpr hq)
    simpa [hproc] using hcurrent

/-- The sample has two processes at first. -/
theorem below_workingSample : workingSample.Below 2 := by
  intro q hq
  have hne : q ≠ 0 := by omega
  exact set_procs_of_ne hne _ _

/-- The request of a process that has returned. -/
def returnedAt (s : Service) (q : Pid) : Option Request :=
  match s.procs q with
  | some ⟨request, .returned _⟩ => some request
  | _ => none

/-- Whether a process has returned can be computed. -/
theorem returned_of_returnedAt {q : Pid} {request : Request} (h : s.returnedAt q = some request) :
    ∃ response, s.procs q = some ⟨request, .returned response⟩ := by
  unfold returnedAt at h
  split at h
  · rename_i response hproc
    cases h
    exact ⟨response, hproc⟩
  · cases h

theorem cache_coherent_after_worker_sample :
    ∃ s, workingSample.follow sampleSettings timelyStep punctualRun = some s ∧ s.Coherent := by
  have hend : (workingSample.follow sampleSettings timelyStep punctualRun).map
      (fun s => s.returnedAt 0) = some (some (.processEmployees 7)) := by
    decide +kernel
  have hpids : ∀ l ∈ punctualRun, ∀ q ∈ l.pids, q < 2 := by decide
  obtain ⟨s, hs, hworker⟩ := Option.map_eq_some_iff.mp hend
  obtain ⟨response, hproc⟩ := returned_of_returnedAt hworker
  have hruns : Runs sampleSettings Timely workingSample s ∧ s.Below 2 := runs_of_follow
    timely_of_timelyStep (fun hl hbelow hstep => hbelow.step (hpids _ hl) hstep) below_workingSample hs
  exact ⟨s, hs, cache_coherent_after_worker hruns.1 hproc⟩

/-- Only metrics requests arrive, and nothing raises. -/
def calmStep (_ : Service) : Label → Bool
  | .arrive _ request => request = .getMetric .hiresByQuarter
  | .call _ c => c.fault.isNone
  | _ => true

/-- A request that had its result before the worker committed sets it after the worker has deleted
the keys, and the cache then holds it although the table has changed. -/
theorem request_sets_stale_metric :
    (workingSample.follow sampleSettings calmStep overtakenRun).map (fun s =>
        (s.world.cache Metric.hiresByQuarter.cacheKey, Metric.hiresByQuarter.rows s.world.db)) =
        some (some [], [[("department", .str "Sales"), ("job", .str "Clerk"), ("Q1", .int 1),
          ("Q2", .int 0), ("Q3", .int 0), ("Q4", .int 0)]]) ∧
      ¬ ∀ {s : Service} {response : Response},
        Runs sampleSettings (fun _ l =>
          (∀ q request, l = .arrive q request → ∃ metric, request = .getMetric metric) ∧
            ∀ q c, l = .call q c → c.fault = none) workingSample s →
        s.procs 0 = some ⟨.processEmployees 7, .returned response⟩ →
        (∀ q metric rest, s.procs q ≠ some ⟨.getMetric metric, .running rest⟩) → s.Coherent := by
  refine ⟨by decide +kernel, fun hclaim => ?_⟩
  have hend : (workingSample.follow sampleSettings calmStep overtakenRun).map (fun s =>
      (s.returnedAt 0, s.returnedAt 1, decide (s.world.cache Metric.hiresByQuarter.cacheKey = none ∨
        s.world.cache Metric.hiresByQuarter.cacheKey =
          some (Metric.hiresByQuarter.rows s.world.db)))) =
      some (some (.processEmployees 7), some (.getMetric .hiresByQuarter), false) := by
    decide +kernel
  have hpids : ∀ l ∈ overtakenRun, ∀ q ∈ l.pids, q < 2 := by decide
  have htest : ∀ (s : Service) (l : Label), s.Below 2 → calmStep s l = true →
      (∀ q request, l = .arrive q request → ∃ metric, request = .getMetric metric) ∧
        ∀ q c, l = .call q c → c.fault = none := by
    intro s l _ h
    refine ⟨?_, ?_⟩
    · rintro q request rfl
      exact ⟨_, of_decide_eq_true h⟩
    · rintro q c rfl
      exact Option.isNone_iff_eq_none.mp h
  obtain ⟨s, hs, hfacts⟩ := Option.map_eq_some_iff.mp hend
  obtain ⟨hworker, hfacts⟩ := Prod.mk.inj hfacts
  obtain ⟨hrequest, hstale⟩ := Prod.mk.inj hfacts
  obtain ⟨response, hproc⟩ := returned_of_returnedAt hworker
  obtain ⟨response', hproc'⟩ := returned_of_returnedAt hrequest
  obtain ⟨hruns, hbelow⟩ := runs_of_follow htest
    (fun hl hbelow hstep => hbelow.step (hpids _ hl) hstep) below_workingSample hs
  refine of_decide_eq_false hstale (hclaim hruns hproc ?_ .hiresByQuarter)
  intro q metric rest hrunning
  rcases Nat.lt_or_ge q 2 with hq | hq
  · have hcases : ∀ n : ℕ, n < 2 → n = 0 ∨ n = 1 := by omega
    rcases hcases q hq with rfl | rfl
    · cases hproc.symm.trans hrunning
    · cases hproc'.symm.trans hrunning
  · cases (hbelow q hq).symm.trans hrunning

end Service

end HiringService
