import HiringService.Service.Coherence
import HiringService.Service.Ledger

/-!
# Where the answers of metrics requests come from

Whatever raises and however the calls interleave, every value that a metrics request returns or puts
into the cache is the result of its query on one committed state of the run. The cache may be out of
date, but it never mixes two states, and since a ledger only grows, what it shows is still there.

This rests on the assumption of `attempt` that a query and the fetching of its rows are not
interrupted by another request on the shared DuckDB connection.
-/

namespace HiringService

open Effect (Program)
open Ledger (Grows)

namespace Service

variable {cfg : Settings} {ok : Service → Label → Prop} {s₀ s s' : Service} {l : Label}
  {metric : Metric} {rows : List Row}

/-- The rows are the result of the query on a state that was committed between `s₀` and `s`. -/
def Past (cfg : Settings) (ok : Service → Label → Prop) (s₀ s : Service) (metric : Metric)
    (rows : List Row) : Prop :=
  ∃ s₁, Runs cfg ok s₀ s₁ ∧ Runs cfg ok s₁ s ∧ rows = metric.rows s₁.world.db

theorem Past.step (h : Past cfg ok s₀ s metric rows) (hnext : Next cfg ok s s') :
    Past cfg ok s₀ s' metric rows := by
  obtain ⟨s₁, hbefore, hafter, hrows⟩ := h
  exact ⟨s₁, hbefore, hafter.tail hnext, hrows⟩

/-- How far a metrics request can be; the rows that it has are those of a committed state. -/
inductive Serving (cfg : Settings) (ok : Service → Label → Prop) (s₀ s : Service) (metric : Metric) :
    Prog Response → Prop
  | get : Serving cfg ok s₀ s metric (.call (.cacheGet metric.cacheKey) (afterGet metric))
  | query : Serving cfg ok s₀ s metric (.call (.query metric) (afterQuery metric))
  | set {rows : List Row} (h : Past cfg ok s₀ s metric rows) : Serving cfg ok s₀ s metric
      (.call (.cacheSet metric.cacheKey rows metricsCacheTtl) (afterSet rows))
  | answered {rows : List Row} (h : Past cfg ok s₀ s metric rows) :
      Serving cfg ok s₀ s metric (.pure (.metric rows))
  | raised (e : Exn) : Serving cfg ok s₀ s metric (.throw e)

theorem Serving.beside {rest : Prog Response} (h : Serving cfg ok s₀ s metric rest)
    (hnext : Next cfg ok s s') : Serving cfg ok s₀ s' metric rest := by
  cases h with
  | get => exact .get
  | query => exact .query
  | set h => exact .set (h.step hnext)
  | answered h => exact .answered (h.step hnext)
  | raised e => exact .raised e

/-- What is known of a metrics request that has come to `status`. -/
def ServedAt (cfg : Settings) (ok : Service → Label → Prop) (s₀ s : Service) (metric : Metric) :
    Status → Prop
  | .running rest => Serving cfg ok s₀ s metric rest
  | .returned response => ∃ rows, response = .metric rows ∧ Past cfg ok s₀ s metric rows
  | _ => True

/-- What is known of the metrics requests and of the cache. -/
structure Served (cfg : Settings) (ok : Service → Label → Prop) (s₀ s : Service) : Prop where
  requests : ∀ {q metric status}, s.procs q = some ⟨.getMetric metric, status⟩ →
    ServedAt cfg ok s₀ s metric status
  cache : ∀ {metric rows}, s.world.cache metric.cacheKey = some rows → Past cfg ok s₀ s metric rows

/-- Getting from the cache returns what is there. -/
theorem exec_cacheGet {pid : Pid} {c : Choice} {w w' : World} {key : String}
    {r : Except Exn (Option (List Row))} (h : exec pid c w (.cacheGet key) = some (r, w')) :
    ∀ found, r = .ok found → found = w.cache key := by
  rcases exec_cases h with hattempt | ⟨f, -, rfl, -⟩
  · cases hattempt
    exact fun found hfound => (Except.ok.inj hfound).symm
  · exact fun found hfound => by cases hfound

/-- The calls of a metrics request lead from stage to stage. -/
theorem Serving.call {op : Op} {k : Except Exn (Reply op) → Prog Response}
    (h : Serving cfg ok s₀ s metric (.call op k)) (hserved : Served cfg ok s₀ s)
    (hruns : Runs cfg ok s₀ s) (hnext : Next cfg ok s s') {pid : Pid} {c : Choice}
    {r : Except Exn (Reply op)} {w : World} (hexec : exec pid c s.world op = some (r, w)) :
    Serving cfg ok s₀ s' metric (k r) := by
  cases h with
  | get =>
      rcases r with e | (_ | rows)
      · exact .raised e
      · exact .query
      · exact .answered ((hserved.cache (exec_cacheGet hexec _ rfl).symm).step hnext)
  | query =>
      rcases r with e | rows
      · exact .raised _
      · exact .set ⟨s, hruns, .single hnext, (exec_query hexec).2 rows rfl⟩
  | set h =>
      rcases r with e | _
      · exact .raised e
      · exact .answered (h.step hnext)

theorem Served.requests_step (h : Served cfg ok s₀ s) (hruns : Runs cfg ok s₀ s)
    (hnext : Next cfg ok s s') {q : Pid} {status' : Status}
    (hproc' : s'.procs q = some ⟨.getMetric metric, status'⟩) :
    ServedAt cfg ok s₀ s' metric status' := by
  have hstep := hnext
  obtain ⟨l, -, hl⟩ := hstep
  rcases (move_of_step hl).turn q with ⟨hsame, -, -⟩ | ⟨-, hproc, -⟩ | ⟨-, hproc, hexec, hproc''⟩ |
    ⟨hproc, hended, hends, -⟩
  · -- somebody else moves
    have hat := h.requests (hsame.symm.trans hproc')
    rcases status' with rest | response | e | _
    · exact Serving.beside hat hnext
    · obtain ⟨rows, hresponse, hpast⟩ := hat
      exact ⟨rows, hresponse, hpast.step hnext⟩
    · trivial
    · trivial
  · cases hproc.symm.trans hproc'
    -- the request starts
    rw [ServedAt, program_getMetric]
    exact .get
  · cases hproc''.symm.trans hproc'
    -- the request makes a call
    exact Serving.call (h.requests hproc) h hruns hnext hexec
  · cases hended.symm.trans hproc'
    have hat := h.requests hproc
    cases hends with
    | returned response =>
        cases hat with
        | answered hpast => exact ⟨_, rfl, hpast.step hnext⟩
    | raised e => trivial
    | cut => trivial

/-- Only metrics requests set keys, each the key of its metric. -/
theorem Tidy.metric_of_set (h : s.Tidy cfg) {q : Pid} {request : Request} {key : String}
    {value : List Row} {ttl : ℕ} {k : Except Exn Unit → Prog Response}
    (hproc : s.procs q = some ⟨request, .running (.call (.cacheSet key value ttl) k)⟩) :
    ∃ metric, request = .getMetric metric ∧ key = metric.cacheKey := by
  have hcall := (h.running hproc).uses.1
  cases request with
  | getMetric metric => exact ⟨metric, rfl, hcall⟩
  | processEmployees b =>
      rcases hcall with hcall | hcall
      · exact hcall.elim
      · cases hcall
  | _ => exact hcall.elim

theorem Served.step (h : Served cfg ok s₀ s) (htidy : s.Tidy cfg) (hruns : Runs cfg ok s₀ s)
    (hnext : Next cfg ok s s') : Served cfg ok s₀ s' where
  requests hproc' := h.requests_step hruns hnext hproc'
  cache := by
    intro metric rows hrows
    have hstep := hnext
    obtain ⟨l, -, hl⟩ := hstep
    rcases (move_of_step hl).cache metric.cacheKey with hsame | hnone | ⟨q, request, value, ttl, k,
      hproc, hset⟩
    · exact (h.cache (hsame.symm.trans hrows)).step hnext
    · cases hnone.symm.trans hrows
    · obtain ⟨metric', rfl, hkey⟩ := htidy.metric_of_set hproc
      obtain rfl := cacheKey_injective hkey
      obtain rfl := Option.some.inj (hset.symm.trans hrows)
      have hserving := h.requests hproc
      cases hserving with
      | set hpast => exact hpast.step hnext

theorem Kept.grows (h : s.Kept cfg) (hruns : Runs cfg ok s s') : Grows s.world.db s'.world.db := by
  induction hruns with
  | refl => exact Grows.refl _
  | tail hbefore hnext ih =>
      obtain ⟨l, -, hl⟩ := hnext
      rcases (h.runs hbefore).enters (move_of_step hl) with hsame | ⟨q, e, -, -, hdb⟩
      · rwa [hsame]
      · rw [hdb]
        exact ih.trans (Ledger.grows_apply _ e)

/-- In every run (of a service whose requests do not disturb each other's queries), what a metrics
request answers and what the cache holds is the exact result of the query on a state that was
committed at some point of the run; every row and batch of that state is still there. -/
theorem metric_answers_are_committed {db : Db} {storage : ObjectKey → Option Bytes}
    (hruns : Runs cfg ok (initial db storage) s) :
    (∀ (q : Pid) (metric : Metric) (response : Response),
      s.procs q = some ⟨.getMetric metric, .returned response⟩ →
      ∃ s₁, Runs cfg ok (initial db storage) s₁ ∧ Runs cfg ok s₁ s ∧
        response = .metric (metric.rows s₁.world.db) ∧ Grows s₁.world.db s.world.db) ∧
    ∀ (metric : Metric) (rows : List Row), s.world.cache metric.cacheKey = some rows →
      ∃ s₁, Runs cfg ok (initial db storage) s₁ ∧ Runs cfg ok s₁ s ∧
        rows = metric.rows s₁.world.db ∧ Grows s₁.world.db s.world.db := by
  have hkept : (initial db storage).Kept cfg := kept_initial db storage
  have hgrows : ∀ {s₁}, Runs cfg ok (initial db storage) s₁ → Runs cfg ok s₁ s →
      Grows s₁.world.db s.world.db :=
    fun hbefore hafter => (hkept.runs hbefore).grows hafter
  have hserved : Served cfg ok (initial db storage) s := by
    clear hgrows
    induction hruns with
    | refl => exact ⟨nofun, nofun⟩
    | tail hbefore hnext ih => exact ih.step (hkept.runs hbefore).orderly.tidy hbefore hnext
  constructor
  · intro q metric response hproc
    obtain ⟨_, rfl, s₁, hbefore, hafter, rfl⟩ := hserved.requests hproc
    exact ⟨s₁, hbefore, hafter, rfl, hgrows hbefore hafter⟩
  · intro metric rows hrows
    obtain ⟨s₁, hbefore, hafter, rfl⟩ := hserved.cache hrows
    exact ⟨s₁, hbefore, hafter, rfl, hgrows hbefore hafter⟩

/-- A request has the result of its query before a worker commits, and sets the key and answers
after the worker has deleted the keys. -/
def lateAnswer : List Label :=
  clashingUpload ++ [.arrive 2 (.getMetric .hiresByQuarter), .call 2 .calm, .call 2 .calm] ++
    clashingWorker ++ [.call 2 .calm, .finish 2 2]

theorem metric_answers_are_committed_sample :
    ∃ s, (initial sampleDb fun _ => none).follow sampleSettings (fun _ _ => true) lateAnswer =
        some s ∧
      s.world.cache Metric.hiresByQuarter.cacheKey = some [] ∧
      Metric.hiresByQuarter.rows s.world.db ≠ [] ∧
      ∃ s₁, Runs sampleSettings (fun _ _ => True) (initial sampleDb fun _ => none) s₁ ∧
        Runs sampleSettings (fun _ _ => True) s₁ s ∧
        [] = Metric.hiresByQuarter.rows s₁.world.db ∧ Grows s₁.world.db s.world.db := by
  have hend : ((initial sampleDb fun _ => none).follow sampleSettings (fun _ _ => true)
      lateAnswer).map (fun s => decide (s.world.cache Metric.hiresByQuarter.cacheKey = some [] ∧
        Metric.hiresByQuarter.rows s.world.db ≠ [])) = some true := by
    decide +kernel
  obtain ⟨s, hs, hfacts⟩ := Option.map_eq_some_iff.mp hend
  obtain ⟨hcache, hrows⟩ := of_decide_eq_true hfacts
  have hruns : Runs sampleSettings (fun _ _ => True) (initial sampleDb fun _ => none) s :=
    runs_of_test (fun _ _ _ => trivial) hs
  exact ⟨s, hs, hcache, hrows, (metric_answers_are_committed hruns).2 .hiresByQuarter [] hcache⟩

end Service

end HiringService
