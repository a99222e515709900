import HiringService.Metrics.RowJson
import HiringService.Redis.CacheClient

/-!
# The Redis client on stored texts

`CacheClient` as it is: Redis stores texts, which `json.dumps` writes and `json.loads` reads. Under
the use cases it takes the place of the client on payloads.

Redis may again do anything short of making values up. A text that it spoils is one that `json.loads`
refuses.
-/

namespace HiringService

open Effect (Program)
open Python (Json)

/-- What the client calls, and the other ports. -/
inductive TextOp
  | port (op : Op)
  | get (key : String)
  | set (key : String) (payload : String)
  | setex (key : String) (ttl : ℕ) (payload : String)
  | delete (keys : List String)
  /-- `asyncio.sleep`. -/
  | sleep (seconds : ℕ)

/-- What a call returns. -/
abbrev TextReply : TextOp → Type
  | .port op => Reply op
  | .get _ => Option String
  | _ => Unit

/-- The programs of the client. -/
abbrev TextProg (α : Type) := Program TextOp TextReply Exn α

/-- A command; its exception is raised in the program. -/
abbrev redisCommand (op : TextOp) : TextProg (TextReply op) := Program.request op

namespace TextClient

/-- The exception of `json.loads`. -/
def jsonDecodeError : Exn := .other "json.decoder.JSONDecodeError"

/-- `json.loads`. -/
def loads (payload : String) : Except Exn Json :=
  match Json.loads payload with
  | some value => .ok value
  | none => .error jsonDecodeError

/-- `json.dumps`. -/
def dumps (value : Json) : Except Exn String :=
  match value.dumps with
  | some payload => .ok payload
  | none => .error (.other "ValueError")

/-- `get_json`. -/
def getJson (key : String) : TextProg (Option Json) :=
  Program.tryExcept
    (do
      let payload : Option String ← redisCommand (.get key)
      match payload with
      | some payload => return some (← Program.lift (loads payload))
      | none => return none)
    fun _ => return none

/-- `set_json`. -/
def setJson (key : String) (value : Json) (ttl : Option ℕ) : TextProg Unit :=
  Program.tryExcept
    (do
      let payload ← Program.lift (dumps value)
      match ttl with
      | some ttl => redisCommand (.setex key ttl payload)
      | none => redisCommand (.set key payload))
    fun _ => return ()

/-- The loop of `delete` with the counter `attempt`. -/
def deleteLoop (keys : List String) (attempt : ℕ) : TextProg Unit :=
  Program.tryExcept (redisCommand (.delete keys)) fun _ =>
    if h : CacheClient.deleteRetryBackoffsSeconds.length ≤ attempt then return ()
    else do
      redisCommand (.sleep (CacheClient.deleteRetryBackoffsSeconds.get ⟨attempt, Nat.lt_of_not_le h⟩))
      deleteLoop keys (attempt + 1)
termination_by CacheClient.deleteRetryBackoffsSeconds.length - attempt
decreasing_by exact Nat.sub_lt_sub_left (Nat.lt_of_not_le h) (Nat.lt_succ_self attempt)

/-- `delete`. -/
def delete (keys : List String) : TextProg Unit := deleteLoop keys 0

end TextClient

/-- What becomes of a cached value that is no list of rows: the use case returns it, and the response
model may refuse it. -/
abbrev Misfit := Json → Except Exn (List Row)

/-- What a metrics request makes of the value of its key. The value of `null` is `None`. -/
def cachedRows (misfit : Misfit) : Option Json → Except Exn (Option (List Row))
  | none | some .null => .ok none
  | some value =>
      match rowsOfJson value with
      | some rows => .ok (some rows)
      | none => (misfit value).map some

/-- The ports of the use cases and of the worker, with the client behind that of the cache. -/
def onTexts (misfit : Misfit) : (op : Op) → TextProg (Reply op)
  | .cacheGet key => do
      let value ← TextClient.getJson key
      Program.lift (cachedRows misfit value)
  | .cacheSet key value ttl => TextClient.setJson key (rowsJson value) (some ttl)
  | .cacheDelete keys => TextClient.delete keys
  | op => redisCommand (.port op)

/-! ## The machine -/

/-- The texts that Redis has stored. -/
abbrev Texts := String → Option String

/-- A text that `json.loads` refuses. -/
abbrev Garbage := {text : String // Json.loads text = none}

/-- What has become of a key since the last command. -/
inductive TextDecay
  | kept
  | lost
  | spoiled (text : Garbage)

/-- The keys after some time. -/
def Texts.decay (texts : Texts) (d : String → TextDecay) : Texts := fun key =>
  match d key with
  | .kept => texts key
  | .lost => none
  | .spoiled text => (texts key).map fun _ => text

/-- What Redis does at a command. A command that raises may have taken effect. -/
structure TextChoice where
  decay : String → TextDecay
  fault : Option Exn
  effective : Bool

/-- The command succeeds, and nothing has happened before. -/
def TextChoice.calm : TextChoice := ⟨fun _ => .kept, none, false⟩

/-- A command with the given reply and effect on the keys. -/
def TextChoice.run {α : Type} (c : TextChoice) (texts : Texts) (reply : Texts → α)
    (effect : Texts → Texts) : Except Exn α × Texts :=
  let found := texts.decay c.decay
  match c.fault with
  | none => (.ok (reply found), effect found)
  | some exc => (.error exc, if c.effective then effect found else found)

/-- The database and the storage, and Redis. -/
structure TextBackend where
  world : World
  texts : Texts

/-- What happens at a call: others act on the database and on the storage, and the call has a choice
of its own; or Redis makes its choice. -/
structure TextBackendChoice where
  act : World → World
  port : Choice
  redis : TextChoice

/-- One command on Redis. -/
def TextBackend.redis {α : Type} (s : TextBackend) (c : TextBackendChoice) (reply : Texts → α)
    (effect : Texts → Texts) : Except Exn α × TextBackend :=
  let result := c.redis.run s.texts reply effect
  (result.1, { s with texts := result.2 })

/-- One call of `pid`; `none` while it has to wait. -/
def TextBackend.exec (pid : Pid) (c : TextBackendChoice) (s : TextBackend) :
    (op : TextOp) → Option (Except Exn (TextReply op) × TextBackend)
  | .port op =>
      (HiringService.exec pid c.port (c.act s.world) op).map fun r => (r.1, { s with world := r.2 })
  | .get key => some (s.redis c (fun texts => texts key) id)
  | .set key payload => some (s.redis c (fun _ => ()) fun texts => Function.update texts key payload)
  | .setex key _ payload =>
      some (s.redis c (fun _ => ()) fun texts => Function.update texts key payload)
  | .delete gone =>
      some (s.redis c (fun _ => ()) fun texts key => if key ∈ gone then none else texts key)
  | .sleep _ => some (.ok (), s)

/-- The machine on which the programs of process `pid` run. -/
abbrev textBackend (pid : Pid) : Effect.Machine TextOp TextReply Exn TextBackend where
  Choice := TextBackendChoice
  step := TextBackend.exec pid

end HiringService
