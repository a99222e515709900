import HiringService.Contracts.Handled
import HiringService.Effect.Expand

/-!
# The analytics client

`DuckDbClient` behind the port of the metrics use cases, and the dependency that builds it. The
client is built by the first request and kept by `lru_cache`, which does not keep a call that
raises. Building it attaches Postgres; a query that fails attaches Postgres again and is tried once
more.

A metrics request resolves this dependency before the use case reads the cache, and outside of the
`try` of the use case. So the request ends in one of the documented ways exactly when the client is
there already or can be built.
-/

namespace HiringService

open Effect (Program Transition)

/-- A DuckDB connection. Postgres is attached to it as it was started for the `n`-th time. -/
structure Connection where
  attached : Option ℕ
  deriving DecidableEq

/-- What the client calls, and the other ports of a metrics request. -/
inductive ClientOp
  | port (op : Op)
  /-- Whether `lru_cache` has the client. -/
  | lookup
  /-- The client, with this connection, is what later calls use. -/
  | keep (conn : Connection)
  /-- `duckdb.connect()`. -/
  | connect
  /-- `INSTALL postgres`. -/
  | install (conn : Connection)
  /-- `LOAD postgres`. -/
  | load (conn : Connection)
  /-- `ATTACH … AS pg`. -/
  | attach (conn : Connection)
  /-- `DuckDbClient._execute` with the query of an endpoint: `execute`, `description` and `fetchall`,
  with no call of another request on the connection in between. -/
  | execute (metric : Metric)

/-- What a call returns. -/
abbrev ClientReply : ClientOp → Type
  | .port op => Reply op
  | .lookup => Bool
  | .connect | .attach _ => Connection
  | .execute _ => List Row
  | _ => Unit

/-- The programs of the client. -/
abbrev ClientProg (α : Type) := Program ClientOp ClientReply Exn α

/-- A call of the client; its exception is raised in the program. -/
abbrev driver (op : ClientOp) : ClientProg (ClientReply op) := Program.request op

/-- `DuckDbClient._connect`. -/
def connectClient : ClientProg Connection := do
  let conn : Connection ← driver .connect
  driver (.install conn)
  driver (.load conn)
  driver (.attach conn)

/-- `_analytics_db`. -/
def analyticsDb : ClientProg Unit := do
  let kept : Bool ← driver .lookup
  if kept then return ()
  else do
    let conn ← connectClient
    driver (.keep conn)

/-- `DuckDbClient.query`. -/
def clientQuery (metric : Metric) : ClientProg (List Row) :=
  Program.tryExcept (driver (.execute metric)) fun _ => do
    let conn ← connectClient
    driver (.keep conn)
    driver (.execute metric)

/-- The ports of the use cases, with the client behind that of the analytics database. -/
def onClient : (op : Op) → ClientProg (Reply op)
  | .query metric => clientQuery metric
  | op => driver (.port op)

/-- `GET /metrics/…`: the dependencies, then the use case. -/
def metricRequest (metric : Metric) : ClientProg (List Row) := do
  analyticsDb
  (getMetric metric).expand onClient

/-! ## The machine -/

/-- The state of the process and of Postgres: whether Postgres accepts connections, how often it has
been started, and the connection of the client if there is a client. -/
structure Analytics where
  world : World
  up : Bool
  starts : ℕ
  client : Option Connection

/-- What the environment does before and at a call: Postgres may go down, come back or be started
anew, others may commit, another request of the process may have given the client a connection, and
the call may raise an exception of DuckDB. -/
structure ClientChoice where
  up : Bool
  starts : ℕ
  commits : List Write
  kept : Option Connection
  fault : Option String

/-- The state at the call. -/
def Analytics.reach (s : Analytics) (c : ClientChoice) : Analytics :=
  { world := s.world.foreign c.commits, up := c.up, starts := c.starts, client := c.kept.or s.client }

/-- An exception of DuckDB. -/
def duckdbError (message : String) : Exn := .other ("duckdb.Error: " ++ message)

/-- The reply of a call that only fails if the environment makes it fail. -/
def ClientChoice.reply {α : Type} (c : ClientChoice) (a : α) : Except Exn α :=
  match c.fault with
  | some message => .error (duckdbError message)
  | none => .ok a

/-- The query runs on a connection to which Postgres is attached since its last start. -/
def Analytics.run (s : Analytics) (metric : Metric) : Except Exn (List Row) :=
  if s.up = true ∧ s.client = some ⟨some s.starts⟩ then .ok (metric.rows s.world.db)
  else .error (duckdbError "connection lost")

/-- `ATTACH`. -/
def Analytics.attach (s : Analytics) : Except Exn Connection :=
  if s.up then .ok ⟨some s.starts⟩ else .error (duckdbError "unable to connect to Postgres")

/-- A call in the state that it reaches; the cache is reachable. -/
def Analytics.answer (s : Analytics) (c : ClientChoice) :
    (op : ClientOp) → Option (Except Exn (ClientReply op) × Analytics)
  | .port op => (attempt s.world 0 .calm op).map fun reply => (reply.1, { s with world := reply.2 })
  | .lookup => some (.ok s.client.isSome, s)
  | .keep conn => some (.ok (), { s with client := some conn })
  | .connect => some (c.reply ⟨none⟩, s)
  | .install _ => some (c.reply (), s)
  | .load _ => some (c.reply (), s)
  | .attach _ => some (s.attach.bind c.reply, s)
  | .execute metric => some ((s.run metric).bind c.reply, s)

/-- The machine of a metrics request. -/
abbrev clientMachine : Effect.Machine ClientOp ClientReply Exn Analytics where
  Choice := ClientChoice
  step c s op := (s.reach c).answer c op

/-- A call of a metrics request. -/
abbrev ClientCall := Transition clientMachine

/-! ## How a request ends -/

/-- DuckDB or Postgres refuses a call that builds a connection. -/
def Refused (x : ClientCall) : Prop :=
  match x.op with
  | .connect | .install _ | .load _ => x.choice.fault ≠ none
  | .attach _ => x.choice.fault ≠ none ∨ x.choice.up = false
  | _ => False

/-- The first call of the log, which is the lookup of `lru_cache`, finds a client. -/
def FindsClient (log : List ClientCall) : Prop :=
  ∃ x ∈ log.head?, (x.before.reach x.choice).client.isSome = true

/-- The three documented ends: the cached value if there is one; otherwise the rows of the query,
which it has read in a committed state, or `AnalyticsUnavailableError`. -/
def Documented (metric : Metric) (s : Analytics) (log : List ClientCall)
    (out : Except Exn (List Row)) : Prop :=
  match s.world.cache metric.cacheKey with
  | some value => out = .ok value
  | none =>
      (∃ rows c before after, (⟨.execute metric, c, before, .ok rows, after⟩ : ClientCall) ∈ log ∧
        rows = metric.rows after.world.db ∧ out = .ok rows) ∨
      ∃ cause, out = .error (.analyticsUnavailable cause)

section

variable {metric : Metric} {s s' : Analytics} {log : List ClientCall}

theorem reply_cases {α : Type} (c : ClientChoice) (a : α) :
    (c.fault = none ∧ c.reply a = .ok a) ∨
      ∃ message, c.fault ≠ none ∧ c.reply a = .error (duckdbError message) := by
  unfold ClientChoice.reply
  rcases c.fault with _ | message
  · exact Or.inl ⟨rfl, rfl⟩
  · exact Or.inr ⟨message, nofun, rfl⟩

/-- An `execute` that returns has read the committed state. -/
theorem rows_of_execute {c : ClientChoice} {rows : List Row}
    (h : clientMachine.step c s (.execute metric) = some (.ok rows, s')) :
    rows = metric.rows s'.world.db := by
  have hstep : ((s.reach c).run metric).bind c.reply = .ok rows ∧ s.reach c = s' := by
    simpa [Analytics.answer] using h
  obtain ⟨hreply, rfl⟩ := hstep
  unfold Analytics.run at hreply
  split at hreply
  · rcases reply_cases c (metric.rows (s.reach c).world.db) with ⟨-, hok⟩ | ⟨message, -, herror⟩
    · exact (Except.ok.inj (hok.symm.trans hreply)).symm
    · cases herror.symm.trans hreply
  · cases hreply

/-- The calls that build a connection. -/
def ClientOp.Builds : ClientOp → Prop
  | .connect | .install _ | .load _ | .attach _ => True
  | _ => False

/-- A call that builds a connection raises exactly when it is refused. -/
theorem builds_step {c : ClientChoice} {op : ClientOp} {r : Except Exn (ClientReply op)}
    (hop : op.Builds) (h : clientMachine.step c s op = some (r, s')) :
    ((∃ a, r = .ok a) ∧ ¬ Refused ⟨op, c, s, r, s'⟩) ∨
      ∃ message, r = .error (duckdbError message) ∧ Refused ⟨op, c, s, r, s'⟩ := by
  have hplain : ∀ {α : Type} {a : α} {r : Except Exn α}, c.reply a = r →
      ((∃ a, r = .ok a) ∧ ¬ c.fault ≠ none) ∨
        ∃ message, r = .error (duckdbError message) ∧ c.fault ≠ none := by
    rintro α a r rfl
    rcases reply_cases c a with ⟨hfault, hr⟩ | ⟨message, hfault, hr⟩
    · exact Or.inl ⟨⟨a, hr⟩, not_not.mpr hfault⟩
    · exact Or.inr ⟨message, hr, hfault⟩
  cases op with
  | connect =>
      cases h
      exact hplain rfl
  | install conn =>
      cases h
      exact hplain rfl
  | load conn =>
      cases h
      exact hplain rfl
  | attach conn =>
      cases h
      by_cases hup : c.up = true
      · have hattach : (s.reach c).attach = .ok ⟨some c.starts⟩ := if_pos hup
        rw [hattach]
        rcases hplain rfl with ⟨hok, hfault⟩ | ⟨message, hr, hfault⟩
        · refine Or.inl ⟨hok, not_or.mpr ⟨hfault, ?_⟩⟩
          simp [hup]
        · exact Or.inr ⟨message, hr, Or.inl hfault⟩
      · -- `ATTACH` raises without a Postgres, whatever else the environment does
        have hattach : (s.reach c).attach = .error (duckdbError "unable to connect to Postgres") :=
          if_neg hup
        rw [hattach]
        exact Or.inr ⟨_, rfl, Or.inr (by simpa using hup)⟩
  | _ => exact hop.elim

/-- The program makes `n` calls, and raises exactly when one of them is refused. -/
def BuildsIn {α : Type} (n : ℕ) (p : ClientProg α) : Prop :=
  ∀ (s s' : Analytics) (log : List ClientCall) (out : Except Exn α),
    p.Traces clientMachine s log out s' →
      (∃ a, out = .ok a ∧ log.length = n ∧ ∀ x ∈ log, ¬ Refused x) ∨
        ∃ message, out = .error (duckdbError message) ∧ log.length ≤ n ∧ ∃ x ∈ log, Refused x

theorem buildsIn_pure {α : Type} (a : α) : BuildsIn 0 (.pure a : ClientProg α) := by
  intro s s' log out h
  cases h
  exact Or.inl ⟨a, rfl, rfl, by simp⟩

theorem BuildsIn.call {α : Type} {n : ℕ} {op : ClientOp} {f : ClientReply op → ClientProg α}
    (hop : op.Builds) (hf : ∀ a, BuildsIn n (f a)) : BuildsIn (n + 1) ((driver op).bind f) := by
  intro s s' log out h
  obtain ⟨c, r, s₁, rest, hstep, rfl, h₁⟩ := h.request_bind_inv
  obtain ⟨⟨_, rfl⟩, hx⟩ | ⟨message, rfl, hx⟩ := builds_step hop hstep
  · obtain ⟨_, he, h₁⟩ | ⟨_, he, -⟩ := h₁
    · cases he
      obtain ⟨a, hout, hlength, hrest⟩ | ⟨message, hout, hlength, x, hx', hrefused⟩ := hf _ _ _ _ _ h₁
      · refine Or.inl ⟨a, hout, by simp [hlength], fun x hx' => ?_⟩
        rcases List.mem_cons.mp hx' with rfl | hx'
        · exact hx
        · exact hrest x hx'
      · exact Or.inr ⟨message, hout, by simpa using hlength, x, List.mem_cons_of_mem _ hx', hrefused⟩
    · cases he
  · obtain ⟨_, he, -⟩ | ⟨_, he, rfl, rfl, -⟩ := h₁
    · cases he
    · cases he
      exact Or.inr ⟨message, rfl, by simp, _, List.mem_cons_self, hx⟩

/-- Building a connection takes four calls. -/
theorem buildsIn_connectClient : BuildsIn 4 connectClient := by
  have hconnect : ClientOp.Builds .connect := trivial
  have hinstall : ∀ conn, ClientOp.Builds (.install conn) := fun _ => trivial
  have hload : ∀ conn, ClientOp.Builds (.load conn) := fun _ => trivial
  have hattach : ∀ conn, ClientOp.Builds (.attach conn) := fun _ => trivial
  have hlast : ∀ conn, BuildsIn 1 (driver (.attach conn)) := by
    intro conn
    rw [← Program.bind_pure (driver (.attach conn))]
    exact BuildsIn.call (hattach conn) buildsIn_pure
  have hrest : ∀ conn, BuildsIn 3 ((driver (.install conn)).bind fun _ =>
      (driver (.load conn)).bind fun _ => driver (.attach conn)) := fun conn =>
    BuildsIn.call (hinstall conn) fun _ => BuildsIn.call (hload conn) fun _ => hlast conn
  exact BuildsIn.call hconnect hrest

/-- A request has run the query, and returns its rows: those of the state that was committed at the
time. -/
def ReturnsRows (metric : Metric) (log : List ClientCall) (out : Except Exn (List Row)) : Prop :=
  ∃ rows c before after, (⟨.execute metric, c, before, .ok rows, after⟩ : ClientCall) ∈ log ∧
    rows = metric.rows after.world.db ∧ out = .ok rows

theorem ReturnsRows.mono {log' : List ClientCall} {out : Except Exn (List Row)}
    (h : ReturnsRows metric log out) (hlog : log ⊆ log') : ReturnsRows metric log' out := by
  obtain ⟨rows, c, before, after, hmem, hend⟩ := h
  exact ⟨rows, c, before, after, hlog hmem, hend⟩

/-- A query that returns gives the rows of an `execute` of its own, the first or that of the
retry. -/
theorem rows_of_clientQuery {out : Except Exn (List Row)}
    (h : (clientQuery metric).Traces clientMachine s log out s') :
    ReturnsRows metric log out ∨ ∃ e, out = .error e := by
  rcases out with e | rows
  · exact Or.inr ⟨e, rfl⟩
  · have hlast : ∀ {t log₁}, (driver (.execute metric)).Traces clientMachine t log₁ (.ok rows) s' →
        ReturnsRows metric log₁ (.ok rows) := by
      intro t log₁ hrun
      obtain ⟨c, hstep, rfl⟩ := hrun.request_inv
      exact ⟨rows, c, t, s', List.mem_singleton_self _, rows_of_execute hstep, rfl⟩
    rcases h.tryExcept_inv with ⟨_, hok, hrun⟩ | ⟨e, log₁, log₂, t, rfl, -, hretry⟩
    · cases hok
      exact Or.inl (hlast hrun)
    · obtain ⟨conn, log₃, log₄, t₁, rfl, -, hkeep⟩ | ⟨_, he, -⟩ := hretry.bind_inv
      · obtain ⟨c, r, t₂, log₅, -, rfl, ⟨-, -, hrun⟩ | ⟨_, -, -, he, -⟩⟩ := hkeep.request_bind_inv
        · exact Or.inl ((hlast hrun).mono fun x hx => by simp [hx])
        · cases he
      · cases he

/-- What follows the read of the cache when the key has no value: the query, and then its rows are
stored and returned, or its exception is reported. -/
theorem computed_inv {out : Except Exn (List Row)}
    (h : ((computeMetric metric).expand onClient).Traces clientMachine s log out s') :
    ∃ r log₁ log₂ s₁, log = log₁ ++ log₂ ∧ (clientQuery metric).Traces clientMachine s log₁ r s₁ ∧
      out = r.mapError .analyticsUnavailable := by
  obtain ⟨r, log₁, log₂, s₁, rfl, hquery, hrest⟩ :=
    Program.Traces.attempt_inv (p := clientQuery metric) h
  refine ⟨r, log₁, log₂, s₁, rfl, hquery, ?_⟩
  rcases r with e | rows
  · cases hrest
    rfl
  · obtain ⟨r, log₃, log₄, s₂, rfl, hset, hend⟩ := Program.Traces.attempt_inv
      (p := driver (.port (.cacheSet metric.cacheKey rows metricsCacheTtl))) hrest
    obtain ⟨_, hstep, rfl⟩ := hset.request_inv
    cases hstep
    cases hend
    rfl

/-- The use case reads the cache, and goes on when the key has no value. -/
theorem useCase_inv {out : Except Exn (List Row)}
    (h : ((getMetric metric).expand onClient).Traces clientMachine s log out s') :
    (∃ value, s.world.cache metric.cacheKey = some value ∧ out = .ok value) ∨
      (s.world.cache metric.cacheKey = none ∧ ∃ x rest s₁, log = x :: rest ∧
        ((computeMetric metric).expand onClient).Traces clientMachine s₁ rest out s') := by
  obtain ⟨r, log₁, log₂, s₁, rfl, hget, h₁⟩ := Program.Traces.attempt_inv
    (p := driver (.port (.cacheGet metric.cacheKey))) h
  obtain ⟨c, hstep, rfl⟩ := hget.request_inv
  have hr : (.ok (s.world.cache metric.cacheKey), s.reach c) = (r, s₁) := Option.some.inj hstep
  cases hr
  rcases hcache : s.world.cache metric.cacheKey with _ | value
  · rw [hcache] at h₁
    exact Or.inr ⟨rfl, _, log₂, _, rfl, h₁⟩
  · rw [hcache] at h₁
    cases h₁
    exact Or.inl ⟨value, rfl, rfl⟩

/-- The use case ends in a documented way. -/
theorem useCase_documented {out : Except Exn (List Row)}
    (h : ((getMetric metric).expand onClient).Traces clientMachine s log out s') :
    Documented metric s log out := by
  unfold Documented
  rcases useCase_inv h with ⟨value, hcache, rfl⟩ | ⟨hcache, x, rest, s₁, rfl, hcomputed⟩
  · rw [hcache]
  · rw [hcache]
    obtain ⟨r, log₁, log₂, s₂, rfl, hquery, rfl⟩ := computed_inv hcomputed
    rcases rows_of_clientQuery hquery with ⟨rows, c, before, after, hmem, hrows, rfl⟩ | ⟨e, rfl⟩
    · exact Or.inl ⟨rows, c, before, after, by simp [hmem], hrows, rfl⟩
    · exact Or.inr ⟨e, rfl⟩

/-- The calls of a log before a documented end may be any that leave the cache as it is. -/
theorem Documented.after {t : Analytics} {out : Except Exn (List Row)} {log' : List ClientCall}
    (h : Documented metric t log' out) (hcache : t.world.cache = s.world.cache) :
    Documented metric s (log ++ log') out := by
  unfold Documented at h ⊢
  rw [hcache] at h
  rcases hvalue : s.world.cache metric.cacheKey with _ | value
  · rw [hvalue] at h
    rcases h with hrows | hend
    · exact Or.inl (ReturnsRows.mono hrows (List.subset_append_right log log'))
    · exact Or.inr hend
  · rw [hvalue] at h
    exact h

/-- An exception of DuckDB is not a documented end. -/
theorem not_documented_duckdbError (message : String) :
    ¬ Documented metric s log (.error (duckdbError message)) := by
  unfold Documented
  rcases s.world.cache metric.cacheKey with _ | value
  · rintro (⟨rows, c, before, after, -, -, he⟩ | ⟨cause, he⟩)
    · cases he
    · cases he
  · intro he
    cases he

/-- Only calls of the ports change the cache. -/
theorem cache_step {c : ClientChoice} {op : ClientOp} {r : Except Exn (ClientReply op)}
    (hop : ∀ o, op ≠ .port o) (h : clientMachine.step c s op = some (r, s')) :
    s'.world.cache = s.world.cache := by
  cases op with
  | port o => exact absurd rfl (hop o)
  | _ =>
      cases h
      rfl

/-- The dependency calls no port. -/
theorem uses_analyticsDb : analyticsDb.Uses fun op => ∀ o, op ≠ .port o := by
  refine Program.Uses.bind (Program.uses_request nofun) fun kept => ?_
  cases kept with
  | true => trivial
  | false =>
      refine Program.Uses.bind ?_ fun conn => Program.uses_request nofun
      exact Program.Uses.bind (Program.uses_request nofun) fun conn =>
        Program.Uses.bind (Program.uses_request nofun) fun _ =>
          Program.Uses.bind (Program.uses_request nofun) fun _ => Program.uses_request nofun

theorem cache_of_analyticsDb {out : Except Exn Unit}
    (h : analyticsDb.Traces clientMachine s log out s') : s'.world.cache = s.world.cache := by
  refine h.invariant (I := fun t => t.world.cache = s.world.cache) (fun x hx hbefore => ?_) rfl
  exact (cache_step (h.uses uses_analyticsDb x hx) (h.step x hx)).trans hbefore

/-- The dependency returns when the client is there, and otherwise when it can be built. -/
theorem analyticsDb_inv {out : Except Exn Unit}
    (h : analyticsDb.Traces clientMachine s log out s') :
    (out = .ok () ∧ (FindsClient log ∨ (5 ≤ log.length ∧ ∀ x ∈ log, ¬ Refused x)) ∧ log ≠ []) ∨
      ∃ message, out = .error (duckdbError message) ∧ ¬ FindsClient log ∧ log.length ≤ 5 ∧
        ∃ x ∈ log, Refused x := by
  obtain ⟨c, r, s₁, rest, hstep, rfl, hrest⟩ := h.request_bind_inv
  cases hstep
  have hlookup : ¬ Refused ⟨.lookup, c, s, .ok (s.reach c).client.isSome, s.reach c⟩ := id
  obtain ⟨_, he, hrest⟩ | ⟨_, he, -⟩ := hrest
  · cases he
    by_cases hclient : (s.reach c).client.isSome = true
    · rw [if_pos hclient] at hrest
      cases hrest
      exact Or.inl ⟨rfl, Or.inl ⟨_, rfl, hclient⟩, List.cons_ne_nil _ _⟩
    · -- `lru_cache` has nothing, so the client is built now
      rw [if_neg hclient] at hrest
      rcases hrest.bind_inv with ⟨conn, log₁, log₂, s₂, rfl, hbuild, hkeep⟩ | ⟨e, rfl, hbuild⟩
      · obtain ⟨c', hstep, rfl⟩ := hkeep.request_inv
        cases hstep
        obtain ⟨_, -, hlength, hcalls⟩ | ⟨_, he, -⟩ := buildsIn_connectClient _ _ _ _ hbuild
        · refine Or.inl ⟨rfl, Or.inr ⟨by simp [hlength], fun x hx => ?_⟩, List.cons_ne_nil _ _⟩
          rcases List.mem_cons.mp hx with rfl | hx
          · exact hlookup
          · rcases List.mem_append.mp hx with hx | hx
            · exact hcalls x hx
            · rw [List.mem_singleton.mp hx]
              exact id
        · cases he
      · obtain ⟨_, he, -⟩ | ⟨message, he, hlength, x, hx, hrefused⟩ :=
          buildsIn_connectClient _ _ _ _ hbuild
        · cases he
        · cases he
          refine Or.inr ⟨message, rfl, ?_, Nat.succ_le_succ hlength, x, List.mem_cons_of_mem _ hx,
            hrefused⟩
          rintro ⟨_, hx, hsome⟩
          cases Option.some.inj hx
          exact hclient hsome
  · cases he

/-- A metrics request ends in a documented way exactly when `lru_cache` has the client, or none of
the calls that build it is refused. -/
theorem metricRequest_documented_iff {out : Except Exn (List Row)}
    (h : (metricRequest metric).Traces clientMachine s log out s') :
    Documented metric s log out ↔ FindsClient log ∨ ∀ x ∈ log.take 5, ¬ Refused x := by
  rcases h.bind_inv with ⟨_, log₁, log₂, s₁, rfl, hdeps, huseCase⟩ | ⟨e, rfl, hdeps⟩
  · have hdocumented : Documented metric s (log₁ ++ log₂) out :=
      (useCase_documented huseCase).after (cache_of_analyticsDb hdeps)
    refine iff_of_true hdocumented ?_
    rcases analyticsDb_inv hdeps with ⟨-, ⟨x, hx, hclient⟩ | ⟨hlength, hcalls⟩, hne⟩ | ⟨_, he, -⟩
    · refine Or.inl ⟨x, ?_, hclient⟩
      rwa [List.head?_append_of_ne_nil log₁ hne]
    · refine Or.inr fun x hx => hcalls x ?_
      rw [List.take_append_of_le_length hlength] at hx
      exact List.mem_of_mem_take hx
    · cases he
  · rcases analyticsDb_inv hdeps with ⟨he, -⟩ | ⟨message, he, hclient, hlength, x, hx, hrefused⟩
    · cases he
    · cases he
      refine iff_of_false (not_documented_duckdbError message) ?_
      rintro (hthere | hcalls)
      · exact hclient hthere
      · rw [List.take_of_length_le hlength] at hcalls
        exact hcalls x hx hrefused

end

/-- Postgres is down for the whole request. -/
def postgresDown : ClientChoice := ⟨false, 0, [], none, none⟩

/-- A process that has served no request yet, and a cache with these values. -/
def firstRequest (cache : String → Option (List Row)) : Analytics where
  world := { World.initial ⟨[], [], [], []⟩ (fun _ => none) with cache := cache }
  up := false
  starts := 0
  client := none

theorem metricRequest_documented_iff_sample :
    ∃ log : List ClientCall, Documented .hiresByQuarter (firstRequest fun _ => none) log (.ok []) ↔
      FindsClient log ∨ ∀ x ∈ log.take 5, ¬ Refused x := by
  have hend : ((metricRequest .hiresByQuarter).replay clientMachine
      (List.replicate 9 { postgresDown with up := true }) (firstRequest fun _ => none)).map
        (fun run => run.2.1) = some (.ok []) := by
    decide
  obtain ⟨⟨log, out, s'⟩, hrun, hout⟩ := Option.map_eq_some_iff.mp hend
  cases hout
  exact ⟨log, metricRequest_documented_iff (Program.traces_of_replay hrun).1⟩

/-- The first request of a process while Postgres is down: the cache has a value for the key, and
the request raises the exception of `ATTACH`. -/
theorem firstRequest_undocumented :
    (∃ log s', (metricRequest .hiresByQuarter).Traces clientMachine (firstRequest fun _ => some []) log
      (.error (duckdbError "unable to connect to Postgres")) s') ∧
    ¬ ∀ (metric : Metric) (s s' : Analytics) (log : List ClientCall) (out : Except Exn (List Row)),
      (metricRequest metric).Traces clientMachine s log out s' → Documented metric s log out := by
  have hend : ((metricRequest .hiresByQuarter).replay clientMachine (List.replicate 5 postgresDown)
      (firstRequest fun _ => some [])).map (fun run => run.2.1) =
        some (.error (duckdbError "unable to connect to Postgres")) := rfl
  obtain ⟨⟨log, out, s'⟩, hrun, hout⟩ := Option.map_eq_some_iff.mp hend
  cases hout
  have htraces := (Program.traces_of_replay hrun).1
  exact ⟨⟨log, s', htraces⟩, fun hall =>
    not_documented_duckdbError _ (hall .hiresByQuarter _ _ _ _ htraces)⟩

end HiringService
