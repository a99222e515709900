import HiringService.Redis.CacheClient
import HiringService.Sequential.Worker

/-!
# Redis never interferes with results

Whatever Redis does, the worker ends as with a Redis that always succeeds, and leaves the same
database; a metrics request raises only what its query has raised, and returns the rows of its query
or rows that an earlier request for the same metric has computed and stored; and a deletion ends
without an exception, and has removed the keys if one of its attempts has succeeded.

The first is a comparison of two runs, in which the database and the storage follow one schedule and
Redis another. The second is about every interleaving of the requests of the service: the invariant
is that every value in Redis has been computed and stored by one of the calls made so far.
-/

namespace HiringService

open Effect (Program)

/-! ## Deletions -/

section Deletion

variable {pid : Pid} {keys : List String} {s s' : Backend}

/-- A deletion that returns has removed the keys. -/
theorem removed_of_delete {c : BackendChoice} {r : Except Exn Unit}
    (h : (backend pid).step c s (.delete keys) = some (r, s')) (hr : r = .ok ()) :
    ∀ key ∈ keys, s'.keys key = none := by
  subst hr
  have hstep : (s.redis c (fun _ => ()) fun found key => if key ∈ keys then none else found key) =
      (.ok (), s') := Option.some.inj h
  obtain ⟨hreply, rfl⟩ := Prod.mk.injEq .. ▸ hstep
  intro key hkey
  rcases hfault : c.redis.fault with _ | exc
  · simp [RedisChoice.run, hfault, hkey]
  · simp [RedisChoice.run, hfault] at hreply

/-- An attempt: it succeeds, it fails and is the last one, or it fails and is followed by a pause
and by the next attempt. -/
theorem deleteLoop_inv {attempt : ℕ} {log : List (Effect.Transition (backend pid))}
    {out : Except Exn Unit}
    (h : (CacheClient.deleteLoop keys attempt).Traces (backend pid) s log out s') :
    (∃ c, (backend pid).step c s (.delete keys) = some (.ok (), s') ∧ out = .ok ()) ∨
      ∃ c e s₁ rest, log = ⟨.delete keys, c, s, .error e, s₁⟩ :: rest ∧
        (rest = [] ∧ out = .ok () ∨
          ∃ (hlt : attempt < CacheClient.deleteRetryBackoffsSeconds.length) (c' : BackendChoice)
            (rest' : _),
            rest = ⟨.sleep CacheClient.deleteRetryBackoffsSeconds[attempt], c', s₁, .ok (), s₁⟩ ::
              rest' ∧
            (CacheClient.deleteLoop keys (attempt + 1)).Traces (backend pid) s₁ rest' out s') := by
  rw [CacheClient.deleteLoop] at h
  rcases h.tryExcept_inv with ⟨_, rfl, hdelete⟩ | ⟨e, log₁, log₂, s₁, rfl, hdelete, hrest⟩
  · obtain ⟨c, hstep, rfl⟩ := hdelete.request_inv
    exact Or.inl ⟨c, hstep, rfl⟩
  · obtain ⟨c, hstep, rfl⟩ := hdelete.request_inv
    refine Or.inr ⟨c, e, s₁, log₂, rfl, ?_⟩
    by_cases hlast : CacheClient.deleteRetryBackoffsSeconds.length ≤ attempt
    · rw [dif_pos hlast] at hrest
      cases hrest
      exact Or.inl ⟨rfl, rfl⟩
    · -- the pause changes nothing and cannot raise
      rw [dif_neg hlast] at hrest
      obtain ⟨c', r, s₂, rest', hsleep, rfl, hnext⟩ := hrest.request_bind_inv
      cases hsleep
      obtain ⟨_, -, hnext⟩ | ⟨_, he, -⟩ := hnext
      · exact Or.inr ⟨not_le.mp hlast, c', rest', rfl, hnext⟩
      · cases he

/-- The loop ends without an exception, and has removed the keys if one of its attempts has
succeeded. -/
theorem deleteLoop_ends {attempt : ℕ} {log : List (Effect.Transition (backend pid))}
    {out : Except Exn Unit}
    (h : (CacheClient.deleteLoop keys attempt).Traces (backend pid) s log out s') :
    out = .ok () ∧
      ((∃ x ∈ log, x.op = .delete keys ∧ x.Returns) → ∀ key ∈ keys, s'.keys key = none) := by
  -- the attempts that are left become fewer
  induction hn : CacheClient.deleteRetryBackoffsSeconds.length - attempt using Nat.strong_induction_on
    generalizing attempt s log with
  | _ n ih =>
      rcases deleteLoop_inv h with ⟨c, hstep, rfl⟩ | ⟨c, e, s₁, rest, rfl, hrest⟩
      · exact ⟨rfl, fun _ => removed_of_delete hstep rfl⟩
      · rcases hrest with ⟨rfl, rfl⟩ | ⟨hlt, c', rest', rfl, hnext⟩
        · refine ⟨rfl, ?_⟩
          rintro ⟨x, hx, -, a, ha⟩
          obtain rfl := List.mem_singleton.mp hx
          cases ha
        · have hfewer : CacheClient.deleteRetryBackoffsSeconds.length - (attempt + 1) < n := by
            omega
          obtain ⟨hout, hremoved⟩ := ih _ hfewer hnext rfl
          refine ⟨hout, ?_⟩
          rintro ⟨x, hx, hop, hreturns⟩
          rcases List.mem_cons.mp hx with rfl | hx
          · obtain ⟨a, ha⟩ := hreturns
            cases ha
          · rcases List.mem_cons.mp hx with rfl | hx
            · cases hop
            · exact hremoved ⟨x, hx, hop, hreturns⟩

end Deletion

/-! ## Two runs of the worker -/

/-- The components of the back end. -/
inductive Component
  | ports
  | redis
  deriving DecidableEq

/-- The component that a call goes to. -/
def CacheOp.component : CacheOp → Component
  | .port _ => .ports
  | _ => .redis

/-- The choices of the two components. -/
def behaviour (ports redis : ℕ → BackendChoice) : Component → ℕ → BackendChoice
  | .ports => ports
  | .redis => redis

/-- Redis succeeds at every command. -/
def reachable (_ : ℕ) : BackendChoice := ⟨id, .calm, .calm⟩

section Worker

variable (pid : Pid)

/-- Neither the world nor what the ports will do is different. -/
def SamePorts (x y : (Component → ℕ → BackendChoice) × Backend) : Prop :=
  x.1 .ports = y.1 .ports ∧ x.2.world = y.2.world

/-- A command on Redis never waits, and leaves the database and the storage as they are. -/
theorem exec_redis {c : BackendChoice} {s : Backend} {op : CacheOp} (hop : op.component = .redis) :
    ∃ r s', (backend pid).step c s op = some (r, s') ∧ s'.world = s.world := by
  cases op with
  | port op => cases hop
  | _ => exact ⟨_, _, rfl, rfl⟩

theorem uses_deleteLoop (keys : List String) (attempt : ℕ) :
    (CacheClient.deleteLoop keys attempt).Uses fun op =>
      op = .delete keys ∨ ∃ seconds, op = .sleep seconds := by
  induction hn : CacheClient.deleteRetryBackoffsSeconds.length - attempt generalizing attempt with
  | zero =>
      have hlast : CacheClient.deleteRetryBackoffsSeconds.length ≤ attempt := by omega
      rw [CacheClient.deleteLoop]
      refine Program.Uses.tryExcept (Program.uses_request (Or.inl rfl)) fun _ => ?_
      rw [dif_pos hlast]
      trivial
  | succ n ih =>
      have hlast : ¬ CacheClient.deleteRetryBackoffsSeconds.length ≤ attempt := by omega
      rw [CacheClient.deleteLoop]
      refine Program.Uses.tryExcept (Program.uses_request (Or.inl rfl)) fun _ => ?_
      rw [dif_neg hlast]
      exact Program.Uses.bind (Program.uses_request (Or.inr ⟨_, rfl⟩)) fun _ => ih _ (by omega)

/-- A deletion comes to an end, without an exception. -/
theorem runBy_delete (keys : List String) (sched : Component → ℕ → BackendChoice) (s : Backend) :
    ∃ sched' s', (CacheClient.delete keys).runBy (backend pid) CacheOp.component sched s =
      some (.ok (), sched', s') ∧ sched' .ports = sched .ports ∧ s'.world = s.world := by
  have hcomponent : ∀ op : CacheOp, (op = .delete keys ∨ ∃ seconds, op = .sleep seconds) →
      op.component = .redis := by
    rintro op (rfl | ⟨seconds, rfl⟩) <;> rfl
  obtain ⟨out, sched', s', hrun, hports, hworld⟩ := Program.runBy_frame (M := backend pid)
    (I := fun t => t.world = s.world) (uses_deleteLoop keys 0) hcomponent
    (fun op hop ht => by
      obtain ⟨r, t', hstep, hworld⟩ := exec_redis pid (hcomponent op hop)
      exact ⟨r, t', hstep, hworld.trans ht⟩) sched rfl
  obtain ⟨log, hlog⟩ := Program.traces_of_runBy hrun
  obtain ⟨rfl, -⟩ := deleteLoop_ends hlog
  exact ⟨sched', s', hrun, hports .ports nofun, hworld⟩

/-- A call of a port: the choice is that of the ports. -/
theorem runBy_port (op : Op) (sched : Program.Schedules (backend pid) Component) (s : Backend) :
    (command (.port op)).runBy (backend pid) CacheOp.component sched s =
      (exec pid (sched .ports 0).port ((sched .ports 0).act s.world) op).map fun r =>
        (r.1, sched.next .ports, { s with world := r.2 }) := by
  rw [Program.runBy_request]
  exact Option.map_map ..

/-- A call of a port is the same call on both sides. -/
theorem alike_port {op : Op} {x y : Program.Schedules (backend pid) Component × Backend}
    (hxy : SamePorts x y) :
    Program.Alike SamePorts
      ((command (.port op)).runBy (backend pid) CacheOp.component x.1 x.2)
      ((command (.port op)).runBy (backend pid) CacheOp.component y.1 y.2) := by
  obtain ⟨hports, hworld⟩ := hxy
  rw [runBy_port, runBy_port, hports, hworld]
  rcases exec pid (y.1 .ports 0).port ((y.1 .ports 0).act y.2.world) op with _ | ⟨r, w⟩
  · exact .none
  · refine .some ⟨rfl, ?_, rfl⟩
    simp only [Program.Schedules.next_self, hports]

/-- A deletion returns on both sides. -/
theorem alike_delete {keys : List String} {x y : (Component → ℕ → BackendChoice) × Backend}
    (hxy : SamePorts x y) :
    Program.Alike SamePorts
      ((CacheClient.delete keys).runBy (backend pid) CacheOp.component x.1 x.2)
      ((CacheClient.delete keys).runBy (backend pid) CacheOp.component y.1 y.2) := by
  obtain ⟨sched, s, hrun, hports, hworld⟩ := runBy_delete pid keys x.1 x.2
  obtain ⟨sched', s', hrun', hports', hworld'⟩ := runBy_delete pid keys y.1 y.2
  rw [hrun, hrun']
  exact .some ⟨rfl, hports.trans (hxy.1.trans hports'.symm), hworld.trans (hxy.2.trans hworld'.symm)⟩

/-- A call of the worker: that of a port, or the deletion. -/
theorem alike_onRedis {b : BatchId} {op : Op} (hop : op.OfWorker b)
    {x y : Program.Schedules (backend pid) Component × Backend} (hxy : SamePorts x y) :
    Program.Alike SamePorts
      ((onRedis op).runBy (backend pid) CacheOp.component x.1 x.2)
      ((onRedis op).runBy (backend pid) CacheOp.component y.1 y.2) := by
  rcases hop with hwriter | rfl
  · cases op with
    | cacheGet key => exact hwriter.elim
    | cacheSet key value ttl => exact hwriter.elim
    | cacheDelete keys => exact hwriter.elim
    | _ => exact alike_port pid hxy
  · exact alike_delete pid hxy

/-- The outcome of the worker and the world that it leaves. -/
def workerEnd (b : BatchId) (cfg : Settings) (s : Backend) (ports redis : ℕ → BackendChoice) :
    Option (Except Exn Unit × World) :=
  (((streamAndProcess b cfg).expand onRedis).runBy (backend pid) CacheOp.component
    (behaviour ports redis) s).map fun x => (x.1, x.2.2.world)

/-- The worker ends the same way, whatever Redis does. -/
theorem workerEnd_eq (b : BatchId) (cfg : Settings) (s : Backend)
    (ports redis redis' : ℕ → BackendChoice) :
    workerEnd pid b cfg s ports redis = workerEnd pid b cfg s ports redis' := by
  have huses : (streamAndProcess b cfg).Uses (Op.OfWorker b) := uses_streamAndProcess
  have halike := Program.Alike.expand (M := backend pid) (x := (behaviour ports redis, s))
    (y := (behaviour ports redis', s)) huses (fun op hop {x y} => alike_onRedis pid hop) ⟨rfl, rfl⟩
  exact halike.map_eq fun h => h.2

end Worker

/-! ## Metrics requests -/

/-- What the client and the ports have answered. -/
abbrev CacheAnswer := Effect.Answer CacheOp CacheReply Exn

/-- The calls that a request may make after the answers `past`: only a metrics request reads the
cache, as its first call, and it only writes rows that its query has returned, under its own key. -/
def Request.MayCall (request : Request) (past : List CacheAnswer) : CacheOp → Prop
  | .port (.query metric) => request = .getMetric metric
  | .get _ => past = []
  | .set .. => False
  | .setex key _ payload => ∃ metric rows, request = .getMetric metric ∧ key = metric.cacheKey ∧
      payload = .json rows ∧ ⟨.port (.query metric), .ok rows⟩ ∈ past
  | _ => True

/-- How a metrics request ends, in terms of what it has been answered. -/
def Request.EndsAfter (request : Request) (past : List CacheAnswer)
    (out : Except Exn Response) : Prop :=
  ∀ metric, request = .getMetric metric → match out with
    | .ok response => ∃ rows, response = .metric rows ∧
        (⟨.port (.query metric), .ok rows⟩ ∈ past ∨
          ⟨.get metric.cacheKey, .ok (some (.json rows))⟩ ∈ past)
    | .error e => ∃ cause, e = .analyticsUnavailable cause ∧
        ⟨.port (.query metric), .error cause⟩ ∈ past

section Metrics

variable {cfg : Settings}

/-- Reading a key: one command, and no exception. -/
theorem follows_getJson {allowed : List CacheAnswer → CacheOp → Prop}
    {Q : List CacheAnswer → Except Exn (Option (List Row)) → Prop} {past : List CacheAnswer}
    {key : String} (hget : allowed past (.get key))
    (hmiss : ∀ r, Q (past ++ [⟨.get key, r⟩]) (.ok none))
    (hhit : ∀ value, Q (past ++ [⟨.get key, .ok (some (.json value))⟩]) (.ok (some value))) :
    (CacheClient.getJson key).Follows allowed Q past := by
  refine ⟨hget, fun r => ?_⟩
  rcases r with e | _ | _ | exc
  · exact hmiss _
  · exact hmiss _
  · exact hhit _
  · exact hmiss _

/-- Writing a key: one command, and no exception. -/
theorem follows_setJson {allowed : List CacheAnswer → CacheOp → Prop}
    {Q : List CacheAnswer → Except Exn Unit → Prop} {past : List CacheAnswer} {key : String}
    {value : List Row} {ttl : ℕ} (hset : allowed past (.setex key ttl (.json value)))
    (hQ : ∀ r, Q (past ++ [⟨.setex key ttl (.json value), r⟩]) (.ok ())) :
    (CacheClient.setJson key value (some ttl)).Follows allowed Q past := by
  refine ⟨hset, fun r => ?_⟩
  rcases r with e | _
  · exact hQ _
  · exact hQ _

/-- A metrics request makes only calls that it may make, and ends as described. -/
theorem follows_getMetric (metric : Metric) :
    (((Request.getMetric metric).program cfg).expand onRedis).Follows
      (Request.getMetric metric).MayCall (Request.getMetric metric).EndsAfter [] := by
  have hcomputed : ∀ past : List CacheAnswer,
      (((computeMetric metric).bind fun rows => .pure (.metric rows)).expand onRedis).Follows
        (Request.getMetric metric).MayCall (Request.getMetric metric).EndsAfter past := by
    intro past
    refine ⟨rfl, fun r => ?_⟩
    rcases r with cause | rows
    · -- the query raises
      rintro _ ⟨⟩
      exact ⟨cause, rfl, by simp⟩
    · have hset : (Request.getMetric metric).MayCall (past ++ [⟨.port (.query metric), .ok rows⟩])
          (.setex metric.cacheKey metricsCacheTtl (.json rows)) :=
        ⟨metric, rows, rfl, rfl, rfl, by simp⟩
      refine Program.Follows.attempt
        (p := CacheClient.setJson metric.cacheKey rows (some metricsCacheTtl)) (follows_setJson hset ?_)
      rintro r _ ⟨⟩
      exact ⟨rows, rfl, Or.inl (by simp)⟩
  refine Program.Follows.attempt (follows_getJson rfl (fun r => hcomputed _) fun value => ?_)
  rintro _ ⟨⟩
  exact ⟨value, rfl, Or.inr (by simp)⟩

/-- The calls that every request may make. -/
def CacheOp.Free : CacheOp → Prop
  | .port (.query _) | .get _ | .set .. | .setex .. => False
  | _ => True

/-- Whether a call reads the cache or the database for metrics, or stores rows. -/
def Op.Reads : Op → Prop
  | .cacheGet _ | .query _ | .cacheSet .. => True
  | _ => False

/-- Only metrics requests make such calls. -/
theorem not_reads {request : Request} (hrequest : ∀ metric, request ≠ .getMetric metric) {op : Op}
    (hop : request.Calls cfg op) : ¬ op.Reads := by
  intro hreads
  have hwriter : ∀ {b}, op.OfWriter b → False := by
    intro b h
    cases op with
    | cacheGet key => exact h
    | query metric => exact h
    | cacheSet key value ttl => exact h
    | _ => exact hreads
  cases request with
  | processEmployees b =>
      rcases hop with hop | rfl
      · exact hwriter hop
      · exact hreads
  | getMetric metric => exact hrequest metric rfl
  | _ =>
      cases op with
      | cacheGet key => exact hop
      | query metric => exact hop
      | cacheSet key value ttl => exact hop
      | _ => exact hreads

/-- The cache is only read and written for a metrics request. -/
theorem uses_free {request : Request} (hrequest : ∀ metric, request ≠ .getMetric metric) :
    ((request.program cfg).expand onRedis).Uses CacheOp.Free := by
  refine (uses_program cfg request).expand fun op hop => ?_
  have hreads := not_reads hrequest hop
  cases op with
  | cacheGet key => exact absurd trivial hreads
  | query metric => exact absurd trivial hreads
  | cacheSet key value ttl => exact absurd trivial hreads
  | cacheDelete keys =>
      refine (uses_deleteLoop keys 0).mono ?_
      rintro op (rfl | ⟨seconds, rfl⟩) <;> trivial
  | _ => exact Program.uses_request trivial

/-- Every request makes only calls that it may make, and a metrics request ends as described. -/
theorem follows_request (request : Request) :
    ((request.program cfg).expand onRedis).Follows request.MayCall request.EndsAfter [] := by
  by_cases hmetric : ∃ metric, request = .getMetric metric
  · obtain ⟨metric, rfl⟩ := hmetric
    exact follows_getMetric metric
  · refine Program.follows_of_uses (uses_free fun metric h => hmetric ⟨metric, h⟩) ?_ ?_
    · intro past op hop
      cases op with
      | port op =>
          cases op with
          | query metric => exact hop.elim
          | _ => trivial
      | delete keys => trivial
      | sleep seconds => trivial
      | _ => exact hop.elim
    · intro past out metric h
      exact absurd ⟨metric, h⟩ hmetric

end Metrics

/-! ## Interleaved requests -/

/-- A call of one of the requests. -/
abbrev CacheCall := Effect.Act backend

/-- From `s`, the requests have made the calls `log` in this order; `ps` is what they have left to do. -/
abbrev Serves (cfg : Settings) (requests : Pid → Request) (s : Backend) (log : List CacheCall)
    (ps : Pid → CacheProg Response) (s' : Backend) : Prop :=
  Effect.Interleaves backend (fun q => ((requests q).program cfg).expand onRedis) s log ps s'

/-- A query of `q` has returned the rows, which it has read in the committed state. -/
def Queried (log : List CacheCall) (q : Pid) (metric : Metric) (rows : List Row) : Prop :=
  ∃ x ∈ log, x.1 = q ∧ x.2.answer = ⟨.port (.query metric), .ok rows⟩ ∧
    rows = metric.rows x.2.after.world.db

/-- `q` is a request for the metric, and has stored rows under its key that its query has
returned. -/
def Stored (requests : Pid → Request) (log : List CacheCall) (q : Pid) (metric : Metric)
    (rows : List Row) : Prop :=
  requests q = .getMetric metric ∧ ∃ pre x post ttl, log = pre ++ x :: post ∧ x.1 = q ∧
    x.2.op = .setex metric.cacheKey ttl (.json rows) ∧ Queried pre q metric rows

/-- Every value in Redis has been stored by a request for the metric of its key. -/
def AllStored (requests : Pid → Request) (log : List CacheCall) (s : Backend) : Prop :=
  ∀ key rows, s.keys key = some (.json rows) →
    ∃ q metric, key = metric.cacheKey ∧ Stored requests log q metric rows

section Interleaved

variable {cfg : Settings} {requests : Pid → Request} {s s' : Backend} {log : List CacheCall}
  {ps : Pid → CacheProg Response}

theorem Stored.snoc {q : Pid} {metric : Metric} {rows : List Row}
    (h : Stored requests log q metric rows) (x : CacheCall) :
    Stored requests (log ++ [x]) q metric rows := by
  obtain ⟨hq, pre, y, post, ttl, rfl, hy⟩ := h
  exact ⟨hq, pre, y, post ++ [x], ttl, by simp, hy⟩

/-- Time does not make values. -/
theorem json_of_decay {keys : Keyspace} {d : String → Decay} {key : String} {rows : List Row}
    (h : keys.decay d key = some (.json rows)) : keys key = some (.json rows) := by
  unfold Keyspace.decay at h
  rcases hd : d key with _ | _ | exc
  · rwa [hd] at h
  · rw [hd] at h
    cases h
  · rw [hd] at h
    simp at h

/-- A command leaves the values that were there or those of its effect. -/
theorem json_of_run {α : Type} {c : RedisChoice} {keys : Keyspace} {reply : Keyspace → α}
    {effect : Keyspace → Keyspace} {key : String} {rows : List Row}
    (h : (c.run keys reply effect).2 key = some (.json rows)) :
    keys key = some (.json rows) ∨ effect (keys.decay c.decay) key = some (.json rows) := by
  rcases c.run_keys keys reply effect with hrun | hrun
  · exact Or.inr (hrun ▸ h)
  · exact Or.inl (json_of_decay (hrun ▸ h))

/-- A command that stores a payload leaves the values that were there or that payload. -/
theorem json_of_store {α : Type} {c : RedisChoice} {keys : Keyspace} {reply : Keyspace → α}
    {key key' : String} {payload : Payload} {rows : List Row}
    (h : (c.run keys reply fun found => Function.update found key' payload).2 key =
      some (.json rows)) :
    keys key = some (.json rows) ∨ key' = key ∧ payload = .json rows := by
  rcases json_of_run h with hold | hnew
  · exact Or.inl hold
  · by_cases hkey : key = key'
    · subst hkey
      rw [Function.update_self] at hnew
      exact Or.inr ⟨rfl, Option.some.inj hnew⟩
    · rw [Function.update_of_ne hkey] at hnew
      exact Or.inl (json_of_decay hnew)

/-- A value that is there after a call was there before, or the call has stored it. -/
theorem json_of_exec {pid : Pid} {c : BackendChoice} {op : CacheOp} {r : Except Exn (CacheReply op)}
    (h : (backend pid).step c s op = some (r, s')) {key : String} {rows : List Row}
    (hkey : s'.keys key = some (.json rows)) :
    s.keys key = some (.json rows) ∨ op = .set key (.json rows) ∨
      ∃ ttl, op = .setex key ttl (.json rows) := by
  cases op with
  | port op =>
      obtain ⟨_, -, heq⟩ := Option.map_eq_some_iff.mp h
      cases heq
      exact Or.inl hkey
  -- reading adds nothing, it may only lose or spoil what is there
  | get key' =>
      cases h
      rcases json_of_run hkey with hold | hold
      · exact Or.inl hold
      · exact Or.inl (json_of_decay hold)
  | set key' payload =>
      cases h
      -- what was not there before has just been set
      rcases json_of_store hkey with hold | ⟨rfl, rfl⟩
      · exact Or.inl hold
      · exact Or.inr (Or.inl rfl)
  | setex key' ttl payload =>
      cases h
      rcases json_of_store hkey with hold | ⟨rfl, rfl⟩
      · exact Or.inl hold
      · exact Or.inr (Or.inr ⟨ttl, rfl⟩)
  | delete keys =>
      cases h
      rcases json_of_run hkey with hold | hnew
      · exact Or.inl hold
      · by_cases hgone : key ∈ keys
        · simp [hgone] at hnew
        · exact Or.inl (json_of_decay (by simpa [hgone] using hnew))
  | sleep seconds =>
      cases h
      exact Or.inl hkey

/-- The rows of a query are those of the committed state. -/
theorem rows_of_query {pid : Pid} {c : BackendChoice} {metric : Metric} {rows : List Row}
    (h : (backend pid).step c s (.port (.query metric)) = some (.ok rows, s')) :
    rows = metric.rows s'.world.db := by
  obtain ⟨⟨r, w⟩, hexec, heq⟩ := Option.map_eq_some_iff.mp h
  cases heq
  unfold exec at hexec
  rcases hfault : c.port.fault with _ | f
  · rw [hfault] at hexec
    cases hexec
    rfl
  · rw [hfault] at hexec
    cases hexec

theorem queried_of_past (hrun : Serves cfg requests s log ps s') {q : Pid} {metric : Metric}
    {rows : List Row} (h : ⟨.port (.query metric), .ok rows⟩ ∈ Effect.past q log) :
    Queried log q metric rows := by
  obtain ⟨x, hx, hq, hanswer⟩ := Effect.mem_past.mp h
  have hstep := hrun.step hx
  refine ⟨x, hx, hq, hanswer, ?_⟩
  obtain ⟨_, op, c, before, r, after⟩ := x
  cases hanswer
  exact rows_of_query hstep

/-- What Redis holds after a call has been stored by then. -/
theorem allStored (hempty : ∀ key rows, s.keys key ≠ some (.json rows))
    (hrun : Serves cfg requests s log ps s') :
    AllStored requests log s' := by
  refine hrun.invariant (J := AllStored requests) (fun q => follows_request (requests q))
    (fun pre x ps₁ hpre hstored hmay hstep key rows hkey => ?_)
    (fun key rows hkey => absurd hkey (hempty key rows))
  rcases json_of_exec hstep hkey with hold | hset | ⟨ttl, hset⟩
  · obtain ⟨q, metric, hmetric, hq⟩ := hstored key rows hold
    exact ⟨q, metric, hmetric, hq.snoc x⟩
  · rw [hset] at hmay
    exact hmay.elim
  · rw [hset] at hmay
    obtain ⟨metric, rows', hrequest, hmetric, hpayload, hanswer⟩ := hmay
    cases hpayload
    subst hmetric
    have hqueried := queried_of_past hpre hanswer
    exact ⟨x.1, metric, rfl, hrequest, pre, x, [], ttl, by simp, rfl, hset, hqueried⟩

/-- Where a metrics request has its rows from: its own query, or the read of what another request
has stored before. -/
def Sourced (requests : Pid → Request) (log : List CacheCall) (q : Pid) (metric : Metric)
    (rows : List Row) : Prop :=
  Queried log q metric rows ∨
    ∃ pre x post q', log = pre ++ x :: post ∧ x.1 = q ∧
      x.2.answer = ⟨.get metric.cacheKey, .ok (some (.json rows))⟩ ∧ q' ≠ q ∧
      Stored requests pre q' metric rows

/-- A read that returns has found what is stored. -/
theorem found_of_get {pid : Pid} {c : BackendChoice} {key : String} {rows : List Row}
    (h : (backend pid).step c s (.get key) = some (.ok (some (.json rows)), s')) :
    s.keys key = some (.json rows) := by
  have hstep : s.redis c (fun keys => keys key) id = (.ok (some (.json rows)), s') := Option.some.inj h
  unfold Backend.redis RedisChoice.run at hstep
  rcases hfault : c.redis.fault with _ | exc
  · rw [hfault] at hstep
    exact json_of_decay (Except.ok.inj (congrArg Prod.fst hstep))
  · rw [hfault] at hstep
    cases hstep

/-- A value that a request has read has been stored by another request for the same metric. -/
theorem sourced_of_get (hempty : ∀ key rows, s.keys key ≠ some (.json rows))
    (hrun : Serves cfg requests s log ps s')
    {q : Pid} {metric : Metric} {rows : List Row}
    (h : ⟨.get metric.cacheKey, .ok (some (.json rows))⟩ ∈ Effect.past q log) :
    Sourced requests log q metric rows := by
  obtain ⟨x, hx, hq, hanswer⟩ := Effect.mem_past.mp h
  obtain ⟨pre, post, rfl⟩ := List.append_of_mem hx
  obtain ⟨ps₁, k, hpre, hcall, hstep⟩ := hrun.at_call
  have hmay := hpre.follows (fun q => follows_request (requests q)) x.1
  rw [hcall] at hmay
  have hanswer' := hanswer
  obtain ⟨_, op, c, before, r, after⟩ := x
  cases hanswer
  -- it is the first call of the request, so another one has stored the value
  have hfirst : Effect.past q pre = [] := hq ▸ hmay.1
  obtain ⟨q', metric', hmetric, hstored⟩ :=
    allStored hempty hpre metric.cacheKey rows (found_of_get hstep)
  obtain rfl := cacheKey_injective hmetric
  refine Or.inr ⟨pre, _, post, q', rfl, hq, hanswer', ?_, hstored⟩
  rintro rfl
  obtain ⟨-, pre', y, post', ttl, rfl, hy, -⟩ := hstored
  have hmem : y.2.answer ∈ Effect.past q' (pre' ++ y :: post') :=
    Effect.mem_past.mpr ⟨y, by simp, hy, rfl⟩
  rw [hfirst] at hmem
  cases hmem

/-- How a metrics request ends: with the exception of its query, or with rows that it has queried or
that another request has computed and stored before. -/
theorem metric_ends (hempty : ∀ key rows, s.keys key ≠ some (.json rows))
    (hrun : Serves cfg requests s log ps s')
    {q : Pid} {metric : Metric} (hq : requests q = .getMetric metric) :
    (∀ e, ps q = .throw e → ∃ cause, e = .analyticsUnavailable cause ∧
      ⟨.port (.query metric), .error cause⟩ ∈ Effect.past q log) ∧
    ∀ response, ps q = .pure response →
      ∃ rows, response = .metric rows ∧ Sourced requests log q metric rows := by
  have hfollows := hrun.follows (fun q => follows_request (requests q)) q
  refine ⟨fun e he => ?_, fun response hresponse => ?_⟩
  · rw [he] at hfollows
    exact hfollows metric hq
  · rw [hresponse] at hfollows
    obtain ⟨rows, hrows, hqueried | hread⟩ := hfollows metric hq
    · exact ⟨rows, hrows, Or.inl (queried_of_past hrun hqueried)⟩
    · exact ⟨rows, hrows, sourced_of_get hempty hrun hread⟩

end Interleaved

/-! ## The three parts together -/

/-- Redis never interferes with results: the worker ends as with a Redis that always succeeds; a
metrics request raises only on account of its query, and returns the rows of its query or rows that
another request for the metric has computed and stored before; a deletion ends without an exception,
and has removed the keys if one of its attempts has succeeded. -/
theorem redis_never_interferes :
    (∀ (pid : Pid) (b : BatchId) (cfg : Settings) (s : Backend) (ports redis : ℕ → BackendChoice),
      workerEnd pid b cfg s ports redis = workerEnd pid b cfg s ports reachable) ∧
    (∀ (cfg : Settings) (requests : Pid → Request) (s s' : Backend) (log : List CacheCall)
      (ps : Pid → CacheProg Response), (∀ key rows, s.keys key ≠ some (.json rows)) →
      Serves cfg requests s log ps s' →
      ∀ (q : Pid) (metric : Metric), requests q = .getMetric metric →
        (∀ e, ps q = .throw e → ∃ cause, e = .analyticsUnavailable cause ∧
          ⟨.port (.query metric), .error cause⟩ ∈ Effect.past q log) ∧
        ∀ response, ps q = .pure response →
          ∃ rows, response = .metric rows ∧ Sourced requests log q metric rows) ∧
    ∀ (pid : Pid) (keys : List String) (s : Backend),
      (∀ sched : Component → ℕ → BackendChoice, ∃ sched' s',
        (CacheClient.delete keys).runBy (backend pid) CacheOp.component sched s =
          some (.ok (), sched', s')) ∧
      ∀ (log : List (Effect.Transition (backend pid))) (out : Except Exn Unit) (s' : Backend),
        (CacheClient.delete keys).Traces (backend pid) s log out s' → out = .ok () ∧
          ((∃ x ∈ log, x.op = .delete keys ∧ x.Returns) → ∀ key ∈ keys, s'.keys key = none) := by
  refine ⟨fun pid b cfg s ports redis => workerEnd_eq pid b cfg s ports redis reachable, ?_, ?_⟩
  · intro cfg requests s s' log ps hempty hrun q metric hq
    exact metric_ends hempty hrun hq
  · intro pid keys s
    refine ⟨fun sched => ?_, fun log out s' h => deleteLoop_ends h⟩
    obtain ⟨sched', s', hrun, -⟩ := runBy_delete pid keys sched s
    exact ⟨sched', s', hrun⟩

/-- Redis refuses every command. -/
def unreachable (_ : ℕ) : BackendChoice :=
  ⟨id, .calm, ⟨fun _ => .kept, some (.other "connection refused"), false⟩⟩

/-- The worker of a file of two records with every Redis command failing; a metrics request whose read
fails, and which stores what it has computed, and another one that reads it; a deletion whose first
attempt fails. -/
theorem redis_never_interferes_sample :
    let s : Backend := ⟨World.initial sampleDb fun _ => some clashingFile, fun _ => none⟩
    workerEnd 0 7 sampleSettings s reachable unreachable =
        workerEnd 0 7 sampleSettings s reachable reachable ∧
      (∃ log, Sourced (fun _ => .getMetric .hiresByQuarter) log 1 .hiresByQuarter [] ∧
        ∃ x ∈ log, x.1 = 0 ∧ x.2.answer = ⟨.get Metric.hiresByQuarter.cacheKey,
          .error (.other "connection refused")⟩) ∧
      ∃ (log : List (Effect.Transition (backend 0))) (s' : Backend),
        log.map Effect.Transition.op = [.delete metricsCacheKeys, .sleep 15, .delete metricsCacheKeys] ∧
        (CacheClient.delete metricsCacheKeys).Traces (backend 0) s log (.ok ()) s' ∧
        ∀ key ∈ metricsCacheKeys, s'.keys key = none := by
  intro s
  have hempty : ∀ key rows, s.keys key ≠ some (.json rows) := nofun
  have hrun : ∃ log ps s', Effect.Interleaves backend (fun _ =>
      ((Request.getMetric .hiresByQuarter).program sampleSettings).expand onRedis) s log ps s' ∧
        ps 1 = .pure (.metric []) ∧ ∃ x ∈ log, x.1 = 0 ∧ x.2.answer =
          ⟨.get Metric.hiresByQuarter.cacheKey, .error (.other "connection refused")⟩ :=
    ⟨_, _, _, .snoc (q := 1) (c := reachable 0)
      (.snoc (q := 0) (c := reachable 0) (.snoc (q := 0) (c := reachable 0)
        (.snoc (q := 0) (c := unreachable 0) .nil rfl rfl) rfl rfl) rfl rfl) rfl rfl, rfl,
      _, List.mem_cons_self, rfl, rfl⟩
  obtain ⟨log, ps, s₁, hlog, hps, hfailed⟩ := hrun
  obtain ⟨rows, hrows, hsource⟩ :=
    (redis_never_interferes.2.1 _ _ _ _ _ _ hempty hlog 1 .hiresByQuarter rfl).2 _ hps
  cases hrows
  have hdelete : ∃ run, (CacheClient.delete metricsCacheKeys).replay (backend 0)
      [unreachable 0, reachable 0, reachable 0] s = some run ∧ run.1.map Effect.Transition.op =
        [.delete metricsCacheKeys, .sleep 15, .delete metricsCacheKeys] ∧
      ∃ x ∈ run.1, x.op = .delete metricsCacheKeys ∧ x.Returns := by
    rw [CacheClient.delete, CacheClient.deleteLoop, CacheClient.deleteLoop]
    exact ⟨_, rfl, rfl, _, List.mem_cons_of_mem _ (List.mem_cons_of_mem _ List.mem_cons_self), rfl,
      (), rfl⟩
  obtain ⟨⟨log', out, s₂⟩, hreplay, hops, hattempt⟩ := hdelete
  have htraces := (Program.traces_of_replay hreplay).1
  obtain ⟨rfl, hgone⟩ := (redis_never_interferes.2.2 0 metricsCacheKeys s).2 _ _ _ htraces
  exact ⟨redis_never_interferes.1 .., ⟨log, hsource, hfailed⟩, log', s₂, hops, htraces,
    hgone hattempt⟩

end HiringService
