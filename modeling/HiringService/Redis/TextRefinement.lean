import HiringService.Effect.Simulation
import HiringService.Redis.Degradation
import HiringService.Redis.Texts

/-!
# The client on texts refines that on payloads

A text is seen as the payload that `json.loads` makes of it. With that, the client on texts makes the
calls of the client on payloads, because what `json.dumps` has written for rows is read back as these
rows. The two differ in one point: where `json.dumps` raises, nothing is sent, and the client on
payloads sends a command that is refused.

So what is known of all interleavings of requests on payloads holds on texts.
-/

namespace HiringService

open Effect (Program)
open Python (Json)

/-! ## Texts as payloads -/

/-- What the client sees of a text. -/
def Payload.ofText (text : String) : Payload :=
  match (Json.loads text).bind rowsOfJson with
  | some rows => .json rows
  | none => .malformed TextClient.jsonDecodeError

/-- The text is one of rows, or garbage. -/
def RowsOrGarbage (text : String) : Prop :=
  Json.loads text = none ∨ ∃ rows, Json.loads text = some (rowsJson rows)

/-- All stored texts are of rows, or garbage. -/
def Texts.Sound (texts : Texts) : Prop := ∀ key, ∀ text ∈ texts key, RowsOrGarbage text

/-- The payloads of the stored texts. -/
def Texts.up (texts : Texts) : Keyspace := fun key => (texts key).map .ofText

/-- The state with the payloads of its texts. -/
def TextBackend.up (s : TextBackend) : Backend := ⟨s.world, s.texts.up⟩

def TextDecay.up : TextDecay → Decay
  | .kept => .kept
  | .lost => .lost
  | .spoiled _ => .spoiled TextClient.jsonDecodeError

def TextChoice.up (c : TextChoice) : RedisChoice := ⟨fun key => (c.decay key).up, c.fault, c.effective⟩

def TextBackendChoice.up (c : TextBackendChoice) : BackendChoice := ⟨c.act, c.port, c.redis.up⟩

/-- The command with the payload of its text. -/
def TextOp.up : TextOp → CacheOp
  | .port op => .port op
  | .get key => .get key
  | .set key payload => .set key (.ofText payload)
  | .setex key ttl payload => .setex key ttl (.ofText payload)
  | .delete keys => .delete keys
  | .sleep seconds => .sleep seconds

/-- The reply with the payload of its text. -/
def TextOp.upReply : (op : TextOp) → TextReply op → CacheReply op.up
  | .port _, reply => reply
  | .get _, found => found.map .ofText
  | .set .., _ | .setex .., _ | .delete _, _ | .sleep _, _ => ()

/-- What is stored is the text of rows, or garbage. -/
def TextOp.Made : TextOp → Prop
  | .set _ payload | .setex _ _ payload => RowsOrGarbage payload
  | _ => True

/-- What may be relied on in a reply: a query returns dictionaries, and a text is one of rows, or
garbage. -/
def TextOp.Sound : (op : TextOp) → TextReply op → Prop
  | .port (.query _), rows => ∀ row ∈ (rows : List Row), row.IsDict
  | .get _, found => ∀ text ∈ (found : Option String), RowsOrGarbage text
  | _, _ => True

/-- Texts as payloads. A value may be refused on the upper level without a command on the lower
one. -/
def textLevels : Effect.Levels TextOp TextReply CacheOp CacheReply Exn where
  up := TextOp.up
  made := TextOp.Made
  reply op r r' := r' = r.map op.upReply ∧ ∀ reply, r = .ok reply → op.Sound reply
  silent op r := (∃ key ttl payload, op = .setex key ttl payload) ∧ ∃ exc, r = .error exc

/-! ## The machines -/

section Machines

variable {texts : Texts}

/-- A text that cannot be read is a malformed payload. -/
theorem ofText_garbage {text : String} (h : Json.loads text = none) :
    Payload.ofText text = .malformed TextClient.jsonDecodeError := by
  rw [Payload.ofText, h]
  rfl

/-- A text that holds rows is a payload of these rows. -/
theorem ofText_rows {text : String} {rows : List Row} (h : Json.loads text = some (rowsJson rows)) :
    Payload.ofText text = .json rows := by
  rw [Payload.ofText, h]
  show (match rowsOfJson (rowsJson rows) with
    | some rows => Payload.json rows
    | none => .malformed TextClient.jsonDecodeError) = _
  rw [rowsOfJson_rowsJson]

theorem up_decay (d : String → TextDecay) :
    (texts.decay d).up = texts.up.decay fun key => (d key).up := by
  funext key
  rw [Texts.up, Texts.decay, Keyspace.decay]
  rcases d key with _ | _ | text
  · rfl
  · rfl
  · show Option.map _ (Option.map _ _) = Option.map _ (Option.map _ _)
    rw [Option.map_map, Option.map_map]
    exact congrArg (fun f => (texts key).map f) (funext fun _ => ofText_garbage text.2)

/-- Storing a text stores its payload. -/
theorem up_update (key : String) (payload : String) :
    Texts.up (Function.update texts key payload) =
      Function.update texts.up key (some (Payload.ofText payload)) := by
  funext key'
  rw [Texts.up, Function.update_apply, Function.update_apply]
  split_ifs with hkey
  · rfl
  · rfl

/-- Deleting texts deletes their payloads. -/
theorem up_delete (gone : List String) :
    Texts.up (fun key => if key ∈ gone then none else texts key) =
      fun key => if key ∈ gone then none else texts.up key := by
  funext key
  rw [Texts.up]
  split_ifs with hgone
  · rfl
  · rfl

/-- A command is the same command on the payloads. -/
theorem up_run {α β : Type} (texts : Texts) (c : TextChoice) {reply : Texts → α} {effect : Texts → Texts}
    {reply' : Keyspace → β} {effect' : Keyspace → Keyspace} {f : α → β}
    (hreply : ∀ texts, reply' texts.up = f (reply texts))
    (heffect : ∀ texts, effect' texts.up = (effect texts).up) :
    c.up.run texts.up reply' effect' =
      ((c.run texts reply effect).1.map f, (c.run texts reply effect).2.up) := by
  rw [RedisChoice.run, TextChoice.run]
  have hdecay : texts.up.decay c.up.decay = (texts.decay c.decay).up := (up_decay c.decay).symm
  rcases hfault : c.fault with _ | exc
  · have hfault' : c.up.fault = none := hfault
    simp only [hfault', hdecay, hreply, heffect]
    rfl
  · have hfault' : c.up.fault = some exc := hfault
    have heffective : c.up.effective = c.effective := rfl
    simp only [hfault', heffective, hdecay, heffect]
    split_ifs
    · rfl
    · rfl

/-- Time makes no texts but garbage. -/
theorem sound_decay (h : texts.Sound) (d : String → TextDecay) : (texts.decay d).Sound := by
  intro key text htext
  rw [Texts.decay] at htext
  rcases hd : d key with _ | _ | garbage
  · rw [hd] at htext
    exact h key text htext
  · rw [hd] at htext
    cases htext
  · rw [hd] at htext
    obtain ⟨_, -, rfl⟩ := Option.map_eq_some_iff.mp htext
    exact .inl garbage.2

/-- A command whose effect keeps the texts sound. -/
theorem sound_run {α : Type} (c : TextChoice) (h : texts.Sound) {reply : Texts → α}
    {effect : Texts → Texts} (heffect : ∀ texts : Texts, texts.Sound → (effect texts).Sound) :
    (c.run texts reply effect).2.Sound ∧
      ∀ a, (c.run texts reply effect).1 = .ok a → ∃ found : Texts, found.Sound ∧ a = reply found := by
  have hdecay := sound_decay h c.decay
  rw [TextChoice.run]
  rcases c.fault with _ | exc
  · refine ⟨heffect _ hdecay, ?_⟩
    rintro _ ⟨⟩
    exact ⟨_, hdecay, rfl⟩
  · refine ⟨?_, nofun⟩
    dsimp only
    split_ifs
    · exact heffect _ hdecay
    · exact hdecay

theorem sound_update (h : texts.Sound) (key : String) {payload : String}
    (hpayload : RowsOrGarbage payload) :
    Texts.Sound (Function.update texts key payload) := by
  intro key' text htext
  rw [Function.update_apply] at htext
  split_ifs at htext
  · cases htext
    exact hpayload
  · exact h key' text htext

theorem sound_delete (h : texts.Sound) (gone : List String) :
    Texts.Sound fun key => if key ∈ gone then none else texts key := by
  intro key text htext
  by_cases hgone : key ∈ gone
  · cases (if_pos hgone).symm.trans htext
  · exact h key text ((if_neg hgone).symm.trans htext)

/-- The state on payloads is that of the texts, which are sound. -/
def Shows (s : TextBackend) (t : Backend) : Prop := t = s.up ∧ s.texts.Sound

/-- A command on Redis is the same one on the payloads. -/
theorem up_redis {α β : Type} {s s₁ : TextBackend} {c : TextBackendChoice} {r : Except Exn α}
    {reply : Texts → α} {effect : Texts → Texts} (h : some (s.redis c reply effect) = some (r, s₁))
    (hs : s.texts.Sound) (f : α → β) (reply' : Keyspace → β) (effect' : Keyspace → Keyspace)
    (hreply : ∀ texts, reply' texts.up = f (reply texts))
    (heffect : ∀ texts, effect' texts.up = (effect texts).up)
    (hsound : ∀ texts : Texts, texts.Sound → (effect texts).Sound) :
    some (s.up.redis c.up reply' effect') = some (r.map f, s₁.up) ∧ s₁.texts.Sound ∧
      ∀ a, r = .ok a → ∃ found : Texts, found.Sound ∧ a = reply found := by
  cases h
  have hrun := up_run s.texts c.redis hreply heffect
  have hup : s.up.redis c.up reply' effect' =
      ((c.redis.run s.texts reply effect).1.map f,
        ⟨s.world, (c.redis.run s.texts reply effect).2.up⟩) := by
    rw [Backend.redis]
    exact congrArg (fun x => (x.1, (⟨s.world, x.2⟩ : Backend))) hrun
  exact ⟨congrArg some hup, sound_run c.redis hs hsound⟩

/-- The machine on payloads matches every call on texts. -/
theorem simulates_texts (pid : Pid) :
    Effect.Simulates textLevels (textBackend pid) (backend pid) Shows where
  step := by
    rintro c s op r s₁ _ hstep hmade ⟨rfl, hs⟩
    cases op with
    | port op =>
        have hport : (backend pid).step c.up s.up (.port op) = some (r, s₁.up) := by
          obtain ⟨⟨r', w⟩, hexec, heq⟩ := Option.map_eq_some_iff.mp hstep
          cases heq
          exact Option.map_eq_some_iff.mpr ⟨(r', w), hexec, rfl⟩
        have hworld : s₁.texts = s.texts := by
          obtain ⟨_, -, heq⟩ := Option.map_eq_some_iff.mp hstep
          cases heq
          rfl
        have hsame : r = r.map (TextOp.upReply (.port op)) := by cases r <;> rfl
        refine ⟨c.up, r, s₁.up, hport, ⟨hsame, ?_⟩, rfl, hworld ▸ hs⟩
        rintro reply rfl
        cases op with
        | query metric =>
            show ∀ row ∈ (reply : List Row), row.IsDict
            have hrows : reply = metric.rows s₁.up.world.db := rows_of_query hport
            rw [hrows]
            exact isDict_rows metric _
        | _ => trivial
    | get key =>
        obtain ⟨hup, hsound, hreply⟩ := up_redis hstep hs (Option.map Payload.ofText)
          (fun keys => keys key) id (fun _ => rfl) (fun _ => rfl) fun _ h => h
        refine ⟨c.up, _, s₁.up, hup, ⟨rfl, fun found hfound => ?_⟩, rfl, hsound⟩
        obtain ⟨texts, htexts, rfl⟩ := hreply found hfound
        exact htexts key
    | set key payload =>
        obtain ⟨hup, hsound, -⟩ := up_redis hstep hs (fun _ => ()) (fun _ => ())
          (fun keys => Function.update keys key (some (.ofText payload))) (fun _ => rfl)
          (fun _ => (up_update key payload).symm) fun _ h => sound_update h key hmade
        exact ⟨c.up, _, s₁.up, hup, ⟨rfl, fun _ _ => trivial⟩, rfl, hsound⟩
    | setex key ttl payload =>
        obtain ⟨hup, hsound, -⟩ := up_redis hstep hs (fun _ => ()) (fun _ => ())
          (fun keys => Function.update keys key (some (.ofText payload))) (fun _ => rfl)
          (fun _ => (up_update key payload).symm) fun _ h => sound_update h key hmade
        exact ⟨c.up, _, s₁.up, hup, ⟨rfl, fun _ _ => trivial⟩, rfl, hsound⟩
    | delete gone =>
        obtain ⟨hup, hsound, -⟩ := up_redis hstep hs (fun _ => ()) (fun _ => ())
          (fun keys key => if key ∈ gone then none else keys key) (fun _ => rfl)
          (fun _ => (up_delete gone).symm) fun _ h => sound_delete h gone
        exact ⟨c.up, _, s₁.up, hup, ⟨rfl, fun _ _ => trivial⟩, rfl, hsound⟩
    | sleep seconds =>
        cases hstep
        exact ⟨c.up, .ok (), s.up, rfl, ⟨rfl, fun _ _ => trivial⟩, rfl, hs⟩
  silent := by
    rintro s _ _ _ ⟨rfl, hs⟩ ⟨⟨key, ttl, payload, rfl⟩, exc, rfl⟩
    exact ⟨⟨id, .calm, ⟨fun _ => .kept, some exc, false⟩⟩, s.up, rfl, rfl, hs⟩

end Machines

/-! ## The programs -/

section Programs

variable {misfit : Misfit}

/-- A single call. -/
theorem refines_port (op : Op) :
    (redisCommand (.port op)).Refines textLevels (command (.port op)) := by
  refine .call_next trivial ?_
  rintro (e | a) _ ⟨rfl, -⟩
  · exact .throw e
  · exact .pure a

/-- The attempts to delete, by induction on their number. -/
theorem refines_deleteLoop (keys : List String) (attempt : ℕ) :
    (TextClient.deleteLoop keys attempt).Refines textLevels (CacheClient.deleteLoop keys attempt) := by
  induction hn : CacheClient.deleteRetryBackoffsSeconds.length - attempt using Nat.strong_induction_on
    generalizing attempt with
  | _ n ih =>
      rw [TextClient.deleteLoop, CacheClient.deleteLoop]
      refine .call_next trivial ?_
      rintro (e | _) _ ⟨rfl, -⟩
      · show Program.Refines textLevels (dite _ _ _) (dite _ _ _)
        split_ifs with hlast
        · exact .pure ()
        · refine .call_next trivial ?_
          rintro (e | _) _ ⟨rfl, -⟩
          · exact .throw e
          · exact ih _ (by omega) (attempt + 1) rfl
      · exact .pure ()

theorem cachedRows_rowsJson (rows : List Row) :
    cachedRows misfit (some (rowsJson rows)) = .ok (some rows) := by
  show (match rowsOfJson (rowsJson rows) with
    | some rows => Except.ok (some rows)
    | none => (misfit (rowsJson rows)).map some) = _
  rw [rowsOfJson_rowsJson]

/-- Reading a key. -/
theorem refines_cacheGet (key : String) :
    (onTexts misfit (.cacheGet key)).Refines textLevels (CacheClient.getJson key) := by
  refine .call_next trivial ?_
  rintro (e | _ | text) _ ⟨rfl, hsound⟩
  · exact .pure none
  · exact .pure none
  · show Program.Refines textLevels
      ((((Program.lift (TextClient.loads text)).bind fun value => .pure (some value)).tryExcept
        fun _ => .pure none).bind fun value => Program.lift (cachedRows misfit value))
      (((Program.lift (Payload.ofText text).loads).bind fun value => .pure (some value)).tryExcept
        fun _ => .pure none)
    rcases hsound (some text) rfl text rfl with hgarbage | ⟨rows, hrows⟩
    · have hloads : TextClient.loads text = .error TextClient.jsonDecodeError := by
        rw [TextClient.loads, hgarbage]
      rw [hloads, ofText_garbage hgarbage]
      exact .pure none
    · have hloads : TextClient.loads text = .ok (rowsJson rows) := by
        rw [TextClient.loads, hrows]
      rw [hloads, ofText_rows hrows]
      show Program.Refines textLevels (Program.lift (cachedRows misfit (some (rowsJson rows)))) _
      rw [cachedRows_rowsJson]
      exact .pure (some rows)

/-- Storing rows, and what follows. Where they cannot be written, the client on payloads sends a
command that is refused. -/
theorem settles_cacheSet {α : Type} (key : String) {rows : List Row} (ttl : ℕ)
    (hrows : ∀ row ∈ rows, row.IsDict) {k : Except Exn Unit → TextProg α}
    {k' : Except Exn Unit → CacheProg α}
    (hk : ∀ r, (k r).Refines textLevels (k' r)) :
    ∃ p, Program.Settles textLevels ((CacheClient.setJson key rows (some ttl)).attempt k') p ∧
      ((onTexts misfit (.cacheSet key rows ttl)).attempt k).Refines textLevels p := by
  rcases hdumps : (rowsJson rows).dumps with _ | text
  · -- rows that `dumps` refuses: below nothing is called, above the command is refused
    have hset : onTexts misfit (.cacheSet key rows ttl) = .pure () := by
      have hraises : TextClient.dumps (rowsJson rows) = .error (.other "ValueError") := by
        rw [TextClient.dumps, hdumps]
      rw [onTexts, TextClient.setJson, hraises]
      rfl
    rw [hset]
    exact ⟨_, .call (r := .error (.other "ValueError")) ⟨⟨key, ttl, _, rfl⟩, _, rfl⟩ (.refl _),
      hk (.ok ())⟩
  · -- the text that is stored is that of the rows
    have hloads := loads_rowsJson hrows hdumps
    have hset : onTexts misfit (.cacheSet key rows ttl) =
        Program.tryExcept (redisCommand (.setex key ttl text)) fun _ => .pure () := by
      have hwrites : TextClient.dumps (rowsJson rows) = .ok text := by
        rw [TextClient.dumps, hdumps]
      rw [onTexts, TextClient.setJson, hwrites]
      rfl
    refine ⟨_, .refl _, ?_⟩
    rw [hset, CacheClient.setJson]
    show Program.Refines textLevels (.call (.setex key ttl text) _)
      (.call (.setex key ttl (.json rows)) _)
    rw [← ofText_rows hloads]
    refine .call_next (.inr ⟨rows, hloads⟩) ?_
    rintro (e | _) _ ⟨rfl, -⟩
    · exact hk (.ok ())
    · exact hk (.ok ())

/-- A metrics request. -/
theorem refines_getMetric (metric : Metric) (cfg : Settings) :
    (((Request.getMetric metric).program cfg).expand (onTexts misfit)).Refines textLevels
      (((Request.getMetric metric).program cfg).expand onRedis) := by
  have hcomputed :
      (((computeMetric metric).bind fun rows => .pure (Response.metric rows)).expand
        (onTexts misfit)).Refines textLevels
      (((computeMetric metric).bind fun rows => .pure (Response.metric rows)).expand onRedis) := by
    refine .call_settles (i := TextOp.port (.query metric)) trivial ?_
    rintro (cause | rows) _ ⟨rfl, hsound⟩
    · exact ⟨_, .refl _, .throw _⟩
    · exact settles_cacheSet metric.cacheKey metricsCacheTtl (hsound rows rfl) fun r => by
        cases r
        · exact .throw _
        · exact .pure _
  refine Program.Refines.attempt (refines_cacheGet metric.cacheKey) ?_
  rintro (e | _ | rows)
  · exact .throw e
  · exact hcomputed
  · exact .pure (Response.metric rows)

/-- Every request on texts refines that on payloads. -/
theorem refines_request (request : Request) (cfg : Settings) :
    ((request.program cfg).expand (onTexts misfit)).Refines textLevels
      ((request.program cfg).expand onRedis) := by
  by_cases hmetric : ∃ metric, request = .getMetric metric
  · obtain ⟨metric, rfl⟩ := hmetric
    exact refines_getMetric metric cfg
  · refine Program.Refines.expand (uses_program cfg request) fun op hop => ?_
    have hreads := not_reads (fun metric h => hmetric ⟨metric, h⟩) hop
    cases op with
    | cacheGet key => exact absurd trivial hreads
    | query metric => exact absurd trivial hreads
    | cacheSet key value ttl => exact absurd trivial hreads
    | cacheDelete keys => exact refines_deleteLoop keys 0
    | _ => exact refines_port _

end Programs

/-! ## Interleaved requests -/

/-- A call of one of the requests. -/
abbrev TextCall := Effect.Act textBackend

/-- From `s`, the requests have made the calls `log` in this order; `ps` is what they have left to do. -/
abbrev TextServes (misfit : Misfit) (cfg : Settings) (requests : Pid → Request) (s : TextBackend)
    (log : List TextCall) (ps : Pid → TextProg Response) (s' : TextBackend) : Prop :=
  Effect.Interleaves textBackend (fun q => ((requests q).program cfg).expand (onTexts misfit)) s log
    ps s'

/-- The request has ended on both levels, and in the same way, or on none. -/
def EndAlike (p : TextProg Response) (p' : CacheProg Response) : Prop :=
  (∀ response, p = .pure response ↔ p' = .pure response) ∧ ∀ e, p = .throw e ↔ p' = .throw e

/-- A request for the metric has computed these rows, in a committed state. -/
def Computed (requests : Pid → Request) (log : List TextCall) (metric : Metric)
    (rows : List Row) : Prop :=
  ∃ x ∈ log, requests x.1 = .getMetric metric ∧
    x.2.answer = ⟨.port (.query metric), .ok rows⟩ ∧ rows = metric.rows x.2.after.world.db

section Interleaved

variable {misfit : Misfit} {cfg : Settings} {requests : Pid → Request} {s s' : TextBackend}
  {log : List TextCall} {ps : Pid → TextProg Response}

/-- A request that refines another one ends like it. -/
theorem endAlike_of_refines {p : TextProg Response} {p' : CacheProg Response}
    (h : p.Refines textLevels p') : EndAlike p p' := by
  cases h with
  | pure a => exact ⟨fun _ => by simp, fun _ => by simp⟩
  | throw e => exact ⟨fun _ => by simp, fun _ => by simp⟩
  | call hi hnext hk => exact ⟨fun _ => by simp, fun _ => by simp⟩

/-- What the requests do on texts, they do on payloads. -/
theorem serves_of_texts (hs : s.texts.Sound) (h : TextServes misfit cfg requests s log ps s') :
    ∃ log' ps', Serves cfg requests s.up log' ps' s'.up ∧ (∀ q, EndAlike (ps q) (ps' q)) ∧
      s'.texts.Sound ∧ Effect.Covers textLevels Shows log log' := by
  obtain ⟨log', ps', _, hrun, hrefines, ⟨rfl, hs'⟩, hcovers⟩ :=
    Effect.Interleaves.refines simulates_texts h
      (fun q => refines_request (requests q) cfg) (⟨rfl, hs⟩ : Shows s s.up)
  exact ⟨log', ps', hrun, fun q => endAlike_of_refines (hrefines q), hs', hcovers⟩

/-- A call of a port on payloads is a call on texts. -/
theorem port_of_covers {log' : List CacheCall} (hcovers : Effect.Covers textLevels Shows log log')
    {y : CacheCall} (hy : y ∈ log') {op : Op} {r : Except Exn (Reply op)}
    (hanswer : y.2.answer = ⟨.port op, r⟩) :
    ∃ x ∈ log, x.1 = y.1 ∧ x.2.answer = ⟨.port op, r⟩ ∧ x.2.after.world = y.2.after.world := by
  rcases hcovers y hy with ⟨⟨key, ttl, payload, hset⟩, -⟩ |
    ⟨x, hx, hq, -, ⟨hafter, -⟩, r', hup, hreply, -⟩
  · have hport : y.2.op = .port op := congrArg Sigma.fst hanswer
    cases hset.symm.trans hport
  · refine ⟨x, hx, hq, ?_, congrArg Backend.world hafter.symm⟩
    obtain ⟨_, xop, c, before, xr, after⟩ := x
    have hport := hup.symm.trans hanswer
    cases xop with
    | port op' =>
        cases hport
        have hsame : xr.map (TextOp.upReply (.port op)) = xr := by cases xr <;> rfl
        rw [hreply, hsame]
        rfl
    | _ => cases hport

/-- A query on payloads is a query on texts. -/
theorem computed_of_queried {log' : List CacheCall} (hcovers : Effect.Covers textLevels Shows log log')
    {q : Pid} {metric : Metric} (hq : requests q = .getMetric metric) {rows : List Row}
    (h : Queried log' q metric rows) : Computed requests log metric rows := by
  obtain ⟨y, hy, rfl, hanswer, hrows⟩ := h
  obtain ⟨x, hx, hpid, hanswer', hworld⟩ := port_of_covers hcovers hy hanswer
  exact ⟨x, hx, hpid ▸ hq, hanswer', hworld ▸ hrows⟩

/-- Rows that a request has stored, or has read where another one has stored them, were computed by
a request for the metric. -/
theorem computed_of_sourced {log' : List CacheCall} (hcovers : Effect.Covers textLevels Shows log log')
    {q : Pid} {metric : Metric} (hq : requests q = .getMetric metric) {rows : List Row}
    (h : Sourced requests log' q metric rows) : Computed requests log metric rows := by
  rcases h with hqueried |
    ⟨pre, x, post, q', rfl, -, -, -, hq', pre', y, post', ttl, rfl, -, -, hqueried⟩
  · exact computed_of_queried hcovers hq hqueried
  · obtain ⟨z, hz, hanswer⟩ := hqueried
    exact computed_of_queried hcovers hq' ⟨z, by simp [hz], hanswer⟩

/-- The payloads of garbage are no rows. -/
theorem not_json_of_garbage (hs : ∀ key, ∀ text ∈ s.texts key, Json.loads text = none) (key : String)
    (rows : List Row) : s.up.keys key ≠ some (.json rows) := by
  intro hkey
  obtain ⟨text, htext, hpayload⟩ := Option.map_eq_some_iff.mp hkey
  rw [ofText_garbage (hs key text htext)] at hpayload
  cases hpayload

/-- Redis starts without values that can be read. Whatever it loses, spoils or refuses, and however
the requests of the service interleave: they end as on payloads; every text that can be read is that
of rows that a request for the metric of its key has computed in a committed state; and a metrics
request raises what its own query has raised, or returns such rows. As everywhere, a query is one
step, although the requests share the connection. -/
theorem texts_hold_query_results (hs : ∀ key, ∀ text ∈ s.texts key, Json.loads text = none)
    (h : TextServes misfit cfg requests s log ps s') :
    (∃ log' ps', Serves cfg requests s.up log' ps' s'.up ∧ ∀ q, EndAlike (ps q) (ps' q)) ∧
      (∀ key, ∀ text ∈ s'.texts key, ∀ value, Json.loads text = some value →
        ∃ metric rows, key = metric.cacheKey ∧ value = rowsJson rows ∧
          Computed requests log metric rows) ∧
      ∀ q metric, requests q = .getMetric metric →
        (∀ e, ps q = .throw e → ∃ cause, e = .analyticsUnavailable cause ∧
          ∃ x ∈ log, x.1 = q ∧ x.2.answer = ⟨.port (.query metric), .error cause⟩) ∧
        ∀ response, ps q = .pure response →
          ∃ rows, response = .metric rows ∧ Computed requests log metric rows := by
  obtain ⟨log', ps', hserves, hends, hsound, hcovers⟩ :=
    serves_of_texts (fun key text htext => .inl (hs key text htext)) h
  have hempty := not_json_of_garbage hs
  refine ⟨⟨log', ps', hserves, hends⟩, ?_, ?_⟩
  · intro key text htext value hvalue
    -- a text that can be read was stored by a request, with the rows of its query
    rcases hsound key text htext with hgarbage | ⟨rows, hrows⟩
    · cases hgarbage.symm.trans hvalue
    · have hkey : s'.up.keys key = some (.json rows) :=
        Option.map_eq_some_iff.mpr ⟨text, htext, ofText_rows hrows⟩
      obtain ⟨q, metric, hmetric, hq, pre, x, post, ttl, rfl, -, -, z, hz, hanswer⟩ :=
        allStored hempty hserves key rows hkey
      refine ⟨metric, rows, hmetric, Option.some.inj (hvalue.symm.trans hrows), ?_⟩
      exact computed_of_queried hcovers hq ⟨z, by simp [hz], hanswer⟩
  · intro q metric hq
    -- what is known of requests on decoded values carries over
    obtain ⟨hraises, hreturns⟩ := metric_ends hempty hserves hq
    refine ⟨fun e he => ?_, fun response hresponse => ?_⟩
    · obtain ⟨cause, rfl, hcause⟩ := hraises e (((hends q).2 e).mp he)
      obtain ⟨y, hy, rfl, hanswer⟩ := Effect.mem_past.mp hcause
      obtain ⟨x, hx, hpid, hanswer', -⟩ := port_of_covers hcovers hy hanswer
      exact ⟨cause, rfl, x, hx, hpid, hanswer'⟩
    · obtain ⟨rows, hrows, hsourced⟩ := hreturns response (((hends q).1 response).mp hresponse)
      exact ⟨rows, hrows, computed_of_sourced hcovers hq hsourced⟩

end Interleaved

/-- A metrics request that reads the text of rows returns them. -/
theorem request_reads_rows (misfit : Misfit) (cfg : Settings) (metric : Metric) {text : String}
    {rows : List Row} (h : Json.loads text = some (rowsJson rows)) :
    ∃ k, ((Request.getMetric metric).program cfg).expand (onTexts misfit) =
        .call (.get metric.cacheKey) k ∧ k (.ok (some text)) = .pure (.metric rows) := by
  have hloads : TextClient.loads text = .ok (rowsJson rows) := by rw [TextClient.loads, h]
  refine ⟨_, rfl, ?_⟩
  show ((((Program.lift (TextClient.loads text)).bind fun value => .pure (some value)).tryExcept
    fun _ => .pure none).bind fun value => Program.lift (cachedRows misfit value)).attempt _ = _
  rw [hloads]
  show (Program.lift (cachedRows misfit (some (rowsJson rows)))).attempt _ = _
  rw [cachedRows_rowsJson]
  rfl

/-- Every call succeeds, but the texts decay before. -/
def decayed (decay : TextDecay) : TextBackendChoice := ⟨id, .calm, ⟨fun _ => decay, none, false⟩⟩

/-- Redis refuses the command. -/
def refused : TextBackendChoice :=
  ⟨id, .calm, ⟨fun _ => .kept, some (.other "connection refused"), false⟩⟩

/-- The back end of the sample: one employee, who was hired in the first quarter, and the texts. -/
def oneHire (texts : Texts) : TextBackend where
  world := World.initial { sampleDb with employees := [⟨1, "A", 1609459200000000, 1, 1, 7⟩] }
    fun _ => none
  texts := texts

/-- Four requests for a metric. The first one is refused by Redis, and stores what it has computed; the
second one reads it back; the third one finds it spoiled, and is refused when it stores its own; the
last one finds it lost. -/
theorem texts_hold_query_results_sample :
    let rows : List Row := [[("department", .str "Sales"), ("job", .str "Clerk"), ("Q1", .int 1),
      ("Q2", .int 0), ("Q3", .int 0), ("Q4", .int 0)]]
    let key := Metric.hiresByQuarter.cacheKey
    ∃ (log : List TextCall) (text : String),
      (log.map fun x => (x.1, x.2.answer)) =
        [(0, ⟨.get key, .error (.other "connection refused")⟩),
          (0, ⟨.port (.query .hiresByQuarter), .ok rows⟩),
          (0, ⟨.setex key metricsCacheTtl text, .ok ()⟩),
          (1, ⟨.get key, .ok (some text)⟩),
          (2, ⟨.get key, .ok (some "\x7b")⟩), (2, ⟨.port (.query .hiresByQuarter), .ok rows⟩),
          (2, ⟨.setex key metricsCacheTtl text, .error (.other "connection refused")⟩),
          (3, ⟨.get key, .ok none⟩)] ∧
      Computed (fun _ => .getMetric .hiresByQuarter) log .hiresByQuarter rows := by
  intro rows key
  let text := String.ofList (rowsJson rows).text
  have hdumps : (rowsJson rows).dumps = some text := rfl
  have hloads : Json.loads text = some (rowsJson rows) :=
    loads_rowsJson (isDict_rows .hiresByQuarter (oneHire fun _ => none).world.db) hdumps
  let misfit : Misfit := fun _ => .error (.other "ResponseValidationError")
  let program := ((Request.getMetric .hiresByQuarter).program sampleSettings).expand (onTexts misfit)
  let stored := oneHire (Function.update (fun _ => none) key (some text))
  -- the first request
  obtain ⟨log₀, ps₀, h₀, hlog₀, hps₀⟩ : ∃ log ps, TextServes misfit sampleSettings
      (fun _ => .getMetric .hiresByQuarter) (oneHire fun _ => none) log ps stored ∧
      (log.map fun x => (x.1, x.2.answer)) =
        [(0, ⟨.get key, .error (.other "connection refused")⟩),
          (0, ⟨.port (.query .hiresByQuarter), .ok rows⟩),
          (0, ⟨.setex key metricsCacheTtl text, .ok ()⟩)] ∧ ∀ q ≠ 0, ps q = program :=
    ⟨_, _, .snoc (q := 0) (c := decayed .kept) (.snoc (q := 0) (c := decayed .kept)
      (.snoc (q := 0) (c := refused) .nil rfl rfl) rfl rfl) rfl rfl, rfl, fun q hq => by
        rw [Function.update_of_ne hq, Function.update_of_ne hq, Function.update_of_ne hq]⟩
  -- the second one reads what has been stored
  obtain ⟨k, hcall, hread⟩ := request_reads_rows misfit sampleSettings .hiresByQuarter hloads
  obtain ⟨ps₁, h₁, hpure, hps₁⟩ : ∃ ps, TextServes misfit sampleSettings
      (fun _ => .getMetric .hiresByQuarter) (oneHire fun _ => none) (log₀ ++ [_]) ps stored ∧
      ps 1 = .pure (.metric rows) ∧ ∀ q ≠ 0, q ≠ 1 → ps q = program :=
    ⟨_, .snoc (q := 1) (c := decayed .kept) (r := .ok (some text)) h₀
      ((hps₀ 1 (by decide)).trans hcall) rfl, (Function.update_self ..).trans hread, fun q h₀ h₁ =>
        (Function.update_of_ne h₁ ..).trans (hps₀ q h₀)⟩
  -- the third one computes again
  have h₂ := Effect.Interleaves.snoc (q := 2) (c := decayed (.spoiled ⟨"\x7b", rfl⟩))
    (r := .ok (some "\x7b")) h₁ (hps₁ 2 (by decide) (by decide)) rfl
  have h₃ := Effect.Interleaves.snoc (q := 2) (c := decayed .kept) (r := .ok rows) h₂
    (Function.update_self ..) rfl
  have h₄ := Effect.Interleaves.snoc (q := 2) (c := refused)
    (r := .error (.other "connection refused")) h₃ (Function.update_self ..) rfl
  -- and the last one starts over
  have h₅ := Effect.Interleaves.snoc (q := 3) (c := decayed .lost) (r := .ok none) h₄
    (((Function.update_of_ne (by decide) ..).trans (Function.update_of_ne (by decide) ..)).trans
      ((Function.update_of_ne (by decide) ..).trans (hps₁ 3 (by decide) (by decide)))) rfl
  -- what the second one returns is what the first one has computed
  have hgarbage : ∀ key, ∀ text ∈ (oneHire fun _ => none).texts key, Json.loads text = none := nofun
  obtain ⟨-, -, hmetrics⟩ := texts_hold_query_results hgarbage h₅
  obtain ⟨_, hrows, hcomputed⟩ := (hmetrics 1 .hiresByQuarter rfl).2 _ hpure
  cases hrows
  refine ⟨_, text, ?_, hcomputed⟩
  simp only [List.map_append, hlog₀]
  rfl

end HiringService
