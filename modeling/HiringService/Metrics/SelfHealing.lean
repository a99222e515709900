import HiringService.Metrics.Client

/-!
# Metrics heal themselves

`query` attaches Postgres again when its first try raises, whatever the reason was, and puts the new
connection in place only when `ATTACH` has returned. So no earlier failure matters to a request that
finds Postgres up: a client that is missing is built, one that is broken is given a new connection,
and the `execute` behind the request's own `ATTACH` runs.
-/

namespace HiringService

open Effect (Program Transition)

/-! ## A healthy request -/

/-- Postgres accepts connections during the calls `log`, since it was started for the `n`-th time,
and it can run the query. A first `execute`, on a connection that is older than the request, may
raise anything. Another request that overlaps this one may give the client its connection, if it has
attached the running Postgres. -/
structure Healthy (n : ℕ) (log : List ClientCall) : Prop where
  up : ∀ x ∈ log, x.choice.up = true
  starts : ∀ x ∈ log, x.choice.starts = n
  kept : ∀ x ∈ log, ∀ conn ∈ x.choice.kept, conn = ⟨some n⟩
  builds : ∀ x ∈ log, x.op.Builds → x.choice.fault = none
  runs : ∀ pre x post metric, log = pre ++ x :: post → x.op = .execute metric →
    (∃ y ∈ pre, ∃ conn, y.op = .attach conn) → x.choice.fault = none

namespace Healthy

variable {n : ℕ} {log log₁ log₂ : List ClientCall}

theorem left (h : Healthy n (log₁ ++ log₂)) : Healthy n log₁ where
  up x hx := h.up x (List.mem_append_left _ hx)
  starts x hx := h.starts x (List.mem_append_left _ hx)
  kept x hx := h.kept x (List.mem_append_left _ hx)
  builds x hx := h.builds x (List.mem_append_left _ hx)
  runs pre x post metric hlog := by
    subst hlog
    exact h.runs pre x (post ++ log₂) metric (by simp)

theorem right (h : Healthy n (log₁ ++ log₂)) : Healthy n log₂ where
  up x hx := h.up x (List.mem_append_right _ hx)
  starts x hx := h.starts x (List.mem_append_right _ hx)
  kept x hx := h.kept x (List.mem_append_right _ hx)
  builds x hx := h.builds x (List.mem_append_right _ hx)
  runs pre x post metric hlog hop := by
    subst hlog
    rintro ⟨y, hy, hattach⟩
    exact h.runs (log₁ ++ pre) x post metric (by simp) hop ⟨y, List.mem_append_right _ hy, hattach⟩

/-- Nothing is refused. -/
theorem not_refused (h : Healthy n log) {x : ClientCall} (hx : x ∈ log) : ¬ Refused x := by
  have hfault := h.builds x hx
  have hup := h.up x hx
  unfold Refused
  cases hop : x.op with
  | connect => simp [hfault (by rw [hop]; trivial)]
  | install conn => simp [hfault (by rw [hop]; trivial)]
  | load conn => simp [hfault (by rw [hop]; trivial)]
  | attach conn => simp [hfault (by rw [hop]; trivial), hup]
  | _ => exact id

end Healthy

/-! ## One request -/

section Healing

variable {metric : Metric} {s s' : Analytics} {log : List ClientCall} {n : ℕ}

/-- A new connection is one to which Postgres was attached by the last call. -/
theorem connectClient_ok {conn : Connection}
    (h : connectClient.Traces clientMachine s log (.ok conn) s') :
    ∃ x ∈ log, (∃ conn', x.op = .attach conn') ∧ conn = ⟨some x.choice.starts⟩ := by
  obtain ⟨_, r, s₁, log₁, -, rfl, ⟨new, -, h₁⟩ | ⟨_, -, -, he, -⟩⟩ := h.request_bind_inv
  rotate_left
  · cases he
  obtain ⟨_, r, s₂, log₂, -, rfl, ⟨_, -, h₂⟩ | ⟨_, -, -, he, -⟩⟩ := h₁.request_bind_inv
  rotate_left
  · cases he
  obtain ⟨_, r, s₃, log₃, -, rfl, ⟨_, -, h₃⟩ | ⟨_, -, -, he, -⟩⟩ := h₂.request_bind_inv
  rotate_left
  · cases he
  obtain ⟨c, hstep, rfl⟩ := h₃.request_inv
  refine ⟨⟨.attach new, c, s₃, .ok conn, s'⟩, by simp, ⟨new, rfl⟩, ?_⟩
  have hreply : (s₃.reach c).attach.bind c.reply = .ok conn := (Prod.mk.inj (Option.some.inj hstep)).1
  unfold Analytics.attach at hreply
  split at hreply
  · rcases reply_cases c (⟨some c.starts⟩ : Connection) with ⟨-, hok⟩ | ⟨message, -, herror⟩
    · exact (Except.ok.inj (hok.symm.trans hreply)).symm
    · cases herror.symm.trans hreply
  · cases hreply

theorem connectClient_healthy {out : Except Exn Connection}
    (h : connectClient.Traces clientMachine s log out s') (hhealthy : Healthy n log) :
    out = .ok ⟨some n⟩ ∧ ∃ x ∈ log, ∃ conn, x.op = .attach conn := by
  obtain ⟨conn, rfl, -, -⟩ | ⟨message, -, -, x, hx, hrefused⟩ := buildsIn_connectClient _ _ _ _ h
  · obtain ⟨x, hx, hattach, rfl⟩ := connectClient_ok h
    rw [hhealthy.starts x hx]
    exact ⟨rfl, x, hx, hattach⟩
  · exact absurd hrefused (hhealthy.not_refused hx)

/-- An `execute` on a connection to the running Postgres, which can run the query. -/
theorem run_ok {c : ClientChoice} {r : Except Exn (List Row)} (hup : c.up = true)
    (hconn : c.kept.or s.client = some ⟨some c.starts⟩) (hfault : c.fault = none)
    (h : clientMachine.step c s (.execute metric) = some (r, s')) : ∃ rows, r = .ok rows := by
  have hr : ((s.reach c).run metric).bind c.reply = r := (Prod.mk.inj (Option.some.inj h)).1
  have hrun : (s.reach c).run metric = .ok (metric.rows (s.reach c).world.db) :=
    if_pos ⟨hup, hconn⟩
  rw [← hr, hrun]
  refine ⟨metric.rows (s.reach c).world.db, ?_⟩
  show c.reply _ = _
  rw [ClientChoice.reply, hfault]

/-- The query of a healthy request returns, whatever the connection of the client was. -/
theorem clientQuery_heals {out : Except Exn (List Row)}
    (h : (clientQuery metric).Traces clientMachine s log out s') (hhealthy : Healthy n log) :
    ∃ rows, out = .ok rows := by
  rcases h.tryExcept_inv with ⟨rows, rfl, -⟩ | ⟨e, first, retry, t, rfl, -, hretry⟩
  · exact ⟨rows, rfl⟩
  -- the first `execute` has raised
  have hretried := hhealthy.right
  obtain ⟨conn, building, rest, t₁, rfl, hbuild, hrest⟩ | ⟨_, rfl, hbuild⟩ := hretry.bind_inv
  · obtain ⟨hconn, y, hy, hattach⟩ := connectClient_healthy hbuild hretried.left
    cases hconn
    obtain ⟨c, r, t₂, last, hkeep, rfl, ⟨_, -, hexecute⟩ | ⟨_, rfl, -⟩⟩ := hrest.request_bind_inv
    rotate_left
    · cases hkeep
    have hclient : t₂.client = some ⟨some n⟩ := by
      cases hkeep
      rfl
    obtain ⟨c', hstep, rfl⟩ := hexecute.request_inv
    have hlast : (⟨.execute metric, c', t₂, out, s'⟩ : ClientCall) ∈
        building ++ [⟨.keep ⟨some n⟩, c, t₁, r, t₂⟩, ⟨.execute metric, c', t₂, out, s'⟩] := by simp
    refine run_ok (hretried.up _ hlast) ?_ ?_ hstep
    · rw [hretried.starts _ hlast, hclient]
      rcases hother : c'.kept with _ | other
      · rfl
      · rw [hretried.kept _ hlast other hother]
        rfl
    · have hbehind := hretried.runs (building ++ [⟨.keep ⟨some n⟩, c, t₁, r, t₂⟩])
        ⟨.execute metric, c', t₂, out, s'⟩ [] metric (by simp) rfl
      exact hbehind ⟨y, List.mem_append_left _ hy, hattach⟩
  · cases (connectClient_healthy hbuild hretried).1

/-- A healthy request that misses the cache returns the rows of the committed state, whatever state
the client was in. -/
theorem metricRequest_heals {out : Except Exn (List Row)}
    (h : (metricRequest metric).Traces clientMachine s log out s') (hhealthy : Healthy n log)
    (hmiss : s.world.cache metric.cacheKey = none) : ReturnsRows metric log out := by
  rcases h.bind_inv with ⟨_, log₁, log₂, s₁, rfl, hdeps, huseCase⟩ | ⟨e, rfl, hdeps⟩
  · have hcache := cache_of_analyticsDb hdeps
    rcases useCase_inv huseCase with ⟨value, hvalue, -⟩ | ⟨-, x, rest, s₂, rfl, hcomputed⟩
    · rw [hcache, hmiss] at hvalue
      cases hvalue
    obtain ⟨r, log₃, log₄, s₃, rfl, hquery, rfl⟩ := computed_inv hcomputed
    have hquerying : Healthy n log₃ := by
      have hrest := hhealthy.right
      rw [← List.singleton_append, ← List.append_assoc] at hrest
      exact hrest.left.right
    obtain ⟨rows, rfl⟩ := clientQuery_heals hquery hquerying
    rcases rows_of_clientQuery hquery with hrows | ⟨e, he⟩
    · exact hrows.mono fun x hx => by simp [hx]
    · cases he
  · rcases analyticsDb_inv hdeps with ⟨he, -⟩ | ⟨message, -, -, -, x, hx, hrefused⟩
    · cases he
    · exact absurd hrefused (hhealthy.not_refused hx)

end Healing

/-! ## Histories -/

/-- A metrics request that was served: its calls, its outcome, and the states before and after. -/
structure MetricRequest where
  metric : Metric
  before : Analytics
  log : List ClientCall
  out : Except Exn (List Row)
  after : Analytics
  served : (metricRequest metric).Traces clientMachine before log out after

/-- The requests of a process that has this client. Between two requests Postgres, the database and
the cache may become anything; the process keeps its client. -/
def Follow : Option Connection → List MetricRequest → Prop
  | _, [] => True
  | client, r :: rs => r.before.client = client ∧ Follow r.after.client rs

/-- What a process has served since it was started, which was without a client. -/
structure MetricHistory where
  requests : List MetricRequest
  follow : Follow none requests

/-- Whatever a process has been through since it was started, a request that misses the cache while
Postgres is healthy returns the rows of the committed state. -/
theorem metrics_self_heal (history : MetricHistory) :
    ∀ r ∈ history.requests, ∀ n, Healthy n r.log →
      r.before.world.cache r.metric.cacheKey = none → ReturnsRows r.metric r.log r.out :=
  fun r _ _ hhealthy hmiss => metricRequest_heals r.served hhealthy hmiss

/-- Calls that all find Postgres up, with nothing going wrong. -/
theorem healthy_of_choice {log : List ClientCall} {n : ℕ}
    (h : ∀ x ∈ log, x.choice = ⟨true, n, [], none, none⟩) : Healthy n log where
  up x hx := by rw [h x hx]
  starts x hx := by rw [h x hx]
  kept x hx := by simp [h x hx]
  builds x hx _ := by rw [h x hx]
  runs pre x post metric hlog _ _ := by rw [h x (by simp [hlog])]

/-- A process without a client, or whose client has this connection. -/
def processWith (client : Option Connection) : Analytics :=
  { firstRequest (fun _ => none) with client := client }

/-- The client cannot be built, is built, breaks when Postgres is started anew, and stays broken when
reconnecting fails; the next request heals it. -/
theorem metrics_self_heal_sample :
    ∃ (history : MetricHistory) (r : MetricRequest),
      history.requests.map (fun r => r.out.toOption.isSome) = [false, true, false, true] ∧
      history.requests.getLast? = some r ∧ ReturnsRows r.metric r.log r.out := by
  have hunbuilt : ∃ log s, (metricRequest .hiresByQuarter).replay clientMachine
      (List.replicate 5 ⟨false, 0, [], none, none⟩) (processWith none) =
        some (log, .error (duckdbError "unable to connect to Postgres"), s) ∧ s.client = none :=
    ⟨_, _, rfl, rfl⟩
  have hbuilt : ∃ log s, (metricRequest .hiresByQuarter).replay clientMachine
      (List.replicate 9 ⟨true, 0, [], none, none⟩) (processWith none) = some (log, .ok [], s) ∧
        s.client = some ⟨some 0⟩ :=
    ⟨_, _, rfl, rfl⟩
  have hbroken : ∃ log s, (metricRequest .hiresByQuarter).replay clientMachine
      (List.replicate 7 ⟨false, 1, [], none, none⟩) (processWith (some ⟨some 0⟩)) = some (log,
        .error (.analyticsUnavailable (duckdbError "unable to connect to Postgres")), s) ∧
          s.client = some ⟨some 0⟩ :=
    ⟨_, _, rfl, rfl⟩
  have hhealed : ∃ log s, (metricRequest .hiresByQuarter).replay clientMachine
      (List.replicate 10 ⟨true, 1, [], none, none⟩) (processWith (some ⟨some 0⟩)) =
        some (log, .ok [], s) :=
    ⟨_, _, rfl⟩
  obtain ⟨log₁, s₁, h₁, hclient₁⟩ := hunbuilt
  obtain ⟨log₂, s₂, h₂, hclient₂⟩ := hbuilt
  obtain ⟨log₃, s₃, h₃, hclient₃⟩ := hbroken
  obtain ⟨log₄, s₄, h₄⟩ := hhealed
  let r₁ : MetricRequest := ⟨_, _, log₁, _, s₁, (Program.traces_of_replay h₁).1⟩
  let r₂ : MetricRequest := ⟨_, _, log₂, _, s₂, (Program.traces_of_replay h₂).1⟩
  let r₃ : MetricRequest := ⟨_, _, log₃, _, s₃, (Program.traces_of_replay h₃).1⟩
  let r₄ : MetricRequest := ⟨_, _, log₄, _, s₄, (Program.traces_of_replay h₄).1⟩
  let history : MetricHistory :=
    ⟨[r₁, r₂, r₃, r₄], rfl, hclient₁.symm, hclient₂.symm, hclient₃.symm, trivial⟩
  refine ⟨history, r₄, rfl, rfl, ?_⟩
  refine metrics_self_heal history r₄ (by simp [history]) 1 (healthy_of_choice fun x hx => ?_) rfl
  exact List.eq_of_mem_replicate ((Program.traces_of_replay h₄).2 x hx)

end HiringService
