import HiringService.Effect.Parallel
import HiringService.Effect.Schedules
import HiringService.Service

/-!
# The Redis client

`CacheClient` behind the cache port. Reading and writing a key swallow every exception; a deletion
that raises is retried after 15 and after 30 seconds, and then given up.

Redis may do anything short of making values up: every command may raise any exception, with or
without having taken effect, keys may be lost between two commands, and what is stored may no longer
decode.
-/

namespace HiringService

open Effect (Program)

/-- What is stored under a key, as `json.loads` sees it. -/
inductive Payload
  | json (value : List Row)
  | malformed (exc : Exn)

/-- `json.loads`. -/
def Payload.loads : Payload → Except Exn (List Row)
  | .json value => .ok value
  | .malformed exc => .error exc

/-- `json.dumps`: the values of the rows are numbers, texts and `None`. -/
def Payload.dumps (value : List Row) : Payload := .json value

/-- What the client calls, and the other ports. -/
inductive CacheOp
  | port (op : Op)
  | get (key : String)
  | set (key : String) (payload : Payload)
  | setex (key : String) (ttl : ℕ) (payload : Payload)
  | delete (keys : List String)
  /-- `asyncio.sleep`. -/
  | sleep (seconds : ℕ)

/-- What a call returns. -/
abbrev CacheReply : CacheOp → Type
  | .port op => Reply op
  | .get _ => Option Payload
  | _ => Unit

/-- The programs of the client. -/
abbrev CacheProg (α : Type) := Program CacheOp CacheReply Exn α

/-- A command; its exception is raised in the program. -/
abbrev command (op : CacheOp) : CacheProg (CacheReply op) := Program.request op

namespace CacheClient

/-- `get_json`. -/
def getJson (key : String) : CacheProg (Option (List Row)) :=
  Program.tryExcept
    (do
      let payload : Option Payload ← command (.get key)
      match payload with
      | some payload => return some (← Program.lift payload.loads)
      | none => return none)
    fun _ => return none

/-- `set_json`. -/
def setJson (key : String) (value : List Row) (ttl : Option ℕ) : CacheProg Unit :=
  Program.tryExcept
    (match ttl with
      | some ttl => command (.setex key ttl (.dumps value))
      | none => command (.set key (.dumps value)))
    fun _ => return ()

/-- `_DELETE_RETRY_BACKOFFS_SECONDS`. -/
def deleteRetryBackoffsSeconds : List ℕ := [15, 30]

/-- The loop of `delete` with the counter `attempt`. -/
def deleteLoop (keys : List String) (attempt : ℕ) : CacheProg Unit :=
  Program.tryExcept (command (.delete keys)) fun _ =>
    if h : deleteRetryBackoffsSeconds.length ≤ attempt then return ()
    else do
      command (.sleep deleteRetryBackoffsSeconds[attempt])
      deleteLoop keys (attempt + 1)
termination_by deleteRetryBackoffsSeconds.length - attempt

/-- `delete`. -/
def delete (keys : List String) : CacheProg Unit := deleteLoop keys 0

end CacheClient

/-- The ports of the use cases and of the worker, with the client behind that of the cache. -/
def onRedis : (op : Op) → CacheProg (Reply op)
  | .cacheGet key => CacheClient.getJson key
  | .cacheSet key value ttl => CacheClient.setJson key value (some ttl)
  | .cacheDelete keys => CacheClient.delete keys
  | op => command (.port op)

/-! ## The machine -/

/-- What Redis has stored. -/
abbrev Keyspace := String → Option Payload

/-- What has become of a key since the last command. -/
inductive Decay
  | kept
  | lost
  | spoiled (exc : Exn)

/-- The keys after some time. -/
def Keyspace.decay (keys : Keyspace) (d : String → Decay) : Keyspace := fun key =>
  match d key with
  | .kept => keys key
  | .lost => none
  | .spoiled exc => (keys key).map fun _ => .malformed exc

/-- What Redis does at a command. A command that raises may have taken effect. -/
structure RedisChoice where
  decay : String → Decay
  fault : Option Exn
  effective : Bool

/-- The command succeeds, and nothing has happened before. -/
def RedisChoice.calm : RedisChoice := ⟨fun _ => .kept, none, false⟩

/-- A command with the given reply and effect on the keys. -/
def RedisChoice.run {α : Type} (c : RedisChoice) (keys : Keyspace) (reply : Keyspace → α)
    (effect : Keyspace → Keyspace) : Except Exn α × Keyspace :=
  let found := keys.decay c.decay
  match c.fault with
  | none => (.ok (reply found), effect found)
  | some exc => (.error exc, if c.effective then effect found else found)

/-- A command has its effect, or none. -/
theorem RedisChoice.run_keys {α : Type} (c : RedisChoice) (keys : Keyspace) (reply : Keyspace → α)
    (effect : Keyspace → Keyspace) : (c.run keys reply effect).2 = effect (keys.decay c.decay) ∨
      (c.run keys reply effect).2 = keys.decay c.decay := by
  unfold RedisChoice.run
  rcases c.fault with _ | exc
  · exact Or.inl rfl
  · by_cases heffective : c.effective = true
    · exact Or.inl (if_pos heffective)
    · exact Or.inr (if_neg heffective)

/-- The database and the storage, and Redis. The field `cache` of the world is not used. -/
structure Backend where
  world : World
  keys : Keyspace

/-- What happens at a call: others act on the database and on the storage, and the call has a choice
of its own; or Redis makes its choice. -/
structure BackendChoice where
  act : World → World
  port : Choice
  redis : RedisChoice

/-- One command on Redis. -/
def Backend.redis {α : Type} (s : Backend) (c : BackendChoice) (reply : Keyspace → α)
    (effect : Keyspace → Keyspace) : Except Exn α × Backend :=
  let result := c.redis.run s.keys reply effect
  (result.1, { s with keys := result.2 })

/-- One call of `pid`; `none` while it has to wait. -/
def Backend.exec (pid : Pid) (c : BackendChoice) (s : Backend) :
    (op : CacheOp) → Option (Except Exn (CacheReply op) × Backend)
  | .port op =>
      (HiringService.exec pid c.port (c.act s.world) op).map fun r => (r.1, { s with world := r.2 })
  | .get key => some (s.redis c (fun keys => keys key) id)
  | .set key payload => some (s.redis c (fun _ => ()) fun keys => Function.update keys key payload)
  | .setex key _ payload => some (s.redis c (fun _ => ()) fun keys => Function.update keys key payload)
  | .delete gone =>
      some (s.redis c (fun _ => ()) fun keys key => if key ∈ gone then none else keys key)
  | .sleep _ => some (.ok (), s)

/-- The machine on which the programs of process `pid` run. -/
abbrev backend (pid : Pid) : Effect.Machine CacheOp CacheReply Exn Backend where
  Choice := BackendChoice
  step := Backend.exec pid

end HiringService
