import HiringService.Contracts.Worker
import HiringService.Sequential.Worker

/-!
# A handled run of the worker

One run of `stream_and_process` on a pending batch. Every call that `_process` makes may raise, and
other transactions may commit between any two calls, as long as they do not touch the batch. When
the calls of `mark_batch_failed` go through, the batch does not stay pending.
-/

namespace HiringService

open Effect (Env Program)

/-- Other transactions have made and committed the writes `ws`. -/
def World.foreign (ws : List Write) (w : World) : World :=
  { w with server := { w.server with committed := ws.foldl Db.apply w.db } }

/-- The machine of process `pid` when other transactions commit before each of its calls. -/
abbrev sharedMachine (pid : Pid) : Effect.Machine Op Reply Exn World :=
  (machine pid).perturbed World.foreign

/-- The neighbours of a worker that nobody polls. -/
def unpolled (b : BatchId) (may : Choice → Op → Prop) : Neighbours where
  allowed wr := wr.Avoids b
  frozen _ := True
  guar _ _ := True
  may := may

section Run

variable {pid : Pid} {b : BatchId} {w : World} {may : Choice → Op → Prop}

theorem unpolled_host (size : ℤ) (stored : Option Bytes) (base : List EmployeeRow) :
    (unpolled b may).Host (· = .pending) (fun _ => False) b size stored base where
  spares _ h := h.spares _
  guar _ _ := trivial
  spares' _ h := h.spares _
  fails _ h := h.spares _
  complete _ _ := trivial
  fail _ _ := trivial
  same _ _ := trivial

theorem foreign_foreign (ws : List Write) (hws : ∀ wr ∈ ws, wr.Avoids b) :
    Foreign pid (fun wr => wr.Avoids b) (fun _ => True) w (w.foreign ws) :=
  ⟨rfl, rfl, rfl, fun _ _ => rfl, fun _ he => he, ws, hws, rfl⟩

theorem unshared_step (hw : w.Unshared pid) (c : List Write × Choice) (op : Op) :
    ∃ r w', (sharedMachine pid).step c w op = some (r, w') ∧ w'.Unshared pid :=
  @World.Unshared.exec pid (w.foreign c.1) hw c.2 op

/-- A process comes to an end when no other transaction stays open while it runs. -/
theorem run_shared_total {α : Type} (p : Prog α) (sched : ℕ → List Write × Choice)
    (hw : w.Unshared pid) : ∃ r m w', p.run (sharedMachine pid) sched w =
      some (r, fun n => sched (n + m), w') ∧ w'.Unshared pid :=
  Program.run_total (fun op hs => unshared_step hs _ op) p hw

/-- What a program ensures when nobody polls holds of its run. -/
theorem ensures_run_shared {α : Type} {p : Prog α} {Q : Except Exn α → World → Prop}
    (hp : p.Ensures ((unpolled b may).env pid) Q w) {sched : ℕ → List Write × Choice}
    (hw : w.Unshared pid) (hothers : ∀ n, ∀ wr ∈ (sched n).1, wr.Avoids b)
    (hmay : ∀ n op, may (sched n).2 op) :
    ∃ r m w', p.run (sharedMachine pid) sched w = some (r, fun n => sched (n + m), w') ∧ Q r w' ∧
      w'.Unshared pid := by
  obtain ⟨r, m, w', hrun, hw'⟩ := run_shared_total p sched hw
  exact ⟨r, m, w', hrun, hp.of_run (fun n _ => foreign_foreign _ (hothers n)) hmay hrun, hw'⟩

/-! ## The handler -/

/-- The session of `pid` needs no rollback, has no open savepoint and has made the writes `ws`; the
batch exists. -/
def Ready (pid : Pid) (b : BatchId) (ws : List Write) (w : World) : Prop :=
  Holding pid (fun db => Key.batch b ∈ db.keys)
    (fun own s slot => Writing ws own s slot ∧ s.failed = false ∧ s.savepoints = []) w

theorem keep_failed : (unpolled b may).Keep fun db => db.Failed b where
  foldl h hws := Db.InPhase.foldl h fun wr hwr => (hws wr hwr).spares _
  same _ _ := trivial

theorem keep_mem : (unpolled b may).Keep fun db => Key.batch b ∈ db.keys where
  foldl h _ := mem_keys_foldl h _
  same _ _ := trivial

/-- The update of `mark_batch_failed` cannot be refused, and it finds the row of the batch. -/
theorem attempt_updateFailed {c : Choice} {ws : List Write} {r : Except Exn Unit} {w' : World}
    (hs : Ready pid b ws w) (hmem : Key.batch b ∈ (w.view pid).keys)
    (h : attempt w pid c (.statement (.updateStatus b .failed [])) = some (r, w')) :
    r = .ok () ∧ Ready pid b (ws ++ [.updateBatch b .failed []]) w' := by
  obtain ⟨hdb, hwriting, hrunning, hsavepoints⟩ := hs
  simp only [attempt, hrunning] at h
  have hspec := plan_updateStatus_spec (w.view pid) (w.server.others pid) w.clock c.sql b .failed []
  rcases hplan : (Statement.updateStatus b .failed []).plan (w.view pid) (w.server.others pid) w.clock
    c.sql with wr | _ | e | _
  · rw [hplan] at hspec h
    obtain ⟨rfl, -, -⟩ := hspec
    cases h
    refine ⟨rfl, hdb, ?_, hrunning, hsavepoints⟩
    show ((w.server.record pid _).own pid).map Txn.Entry.write = _
    rw [Txn.Server.record_own_self, List.map_append,
      show (w.server.own pid).map Txn.Entry.write = ws from hwriting]
    rfl
  · rw [hplan] at hspec
    exact absurd hmem hspec
  · rw [hplan] at hspec
    exact absurd (by simp) hspec.2
  · rw [hplan] at h
    cases h

/-- When no call of `mark_batch_failed` is disturbed, the batch is failed in the end. -/
theorem ensures_markBatchFailed_undisturbed (hs : Key.batch b ∈ w.db.keys) :
    (markBatchFailed b).Ensures ((unpolled b fun c _ => c.fault = none).env pid)
      (fun _ t => t.db.Failed b) w := by
  refine Program.Ensures.tryExcept (ensures_call_bind trivial
    (stable_holding keep_mem (S := Unknown)) ⟨hs, trivial⟩ ?_)
  intro t c r t₁ ht hc hexec
  rw [exec_undisturbed hc] at hexec
  cases hexec
  have h₁ : Ready pid b [] { t with server := t.server.rollback pid } :=
    ⟨ht.1, writing_nil.mpr (t.server.rollback_own_self pid), by simp, by simp⟩
  refine ⟨trivial, ensures_call_bind trivial (stable_holding keep_mem) h₁ ?_⟩
  intro t c r t₂ ht hc hexec
  rw [exec_undisturbed hc] at hexec
  have hview : t.view pid = t.db := (ht.mono (fun _ h => h) fun _ _ _ h => h.1).view
  obtain ⟨rfl, h₂⟩ := attempt_updateFailed ht (by rw [hview]; exact ht.1) hexec
  refine ⟨trivial, ensures_of_bind_pure (ensures_call_bind trivial (stable_holding keep_mem) h₂ ?_)⟩
  intro t c r t₃ ht hc hexec
  rw [exec_commit_calm t hc ht.2.2.1 (by simp [ht.2.2.2])] at hexec
  cases hexec
  have hdb : (t.publish pid).db = t.db.apply (.updateBatch b .failed []) :=
    (ht.mono (fun _ h => h) fun _ _ _ h => h.1).view
  have hend : (t.publish pid).db.Failed b := by
    rw [hdb]
    exact failed_updateBatch ht.1 []
  exact ⟨trivial, Program.ensures_pure (fun hst h => h.interfere hst)
    (Program.ensures_pure (fun hst h => stable_db keep_failed hst h) hend)⟩

/-! ## The run -/

/-- The state of a batch whose run was handled: `r` is how the run has ended. -/
def Handled (b : BatchId) (size : ℤ) (stored : Option Bytes) (base : List EmployeeRow) :
    Except Exn Unit → Db → Prop
  | .ok _, db => ∃ file records parseErrors chunks, ∃ tagged : List (EmployeeRecord × Bool),
      stored = some file ∧ parseEmployees file = .ok (records, parseErrors) ∧
      iterChunks records size = .ok chunks ∧ tagged.map Prod.fst = chunks.flatten ∧
      db.CompletedWith b (parseErrors ++ (rejectedOf tagged).map EmployeeRecord.entry) ∧
      db.rowsOf b = base ++ (acceptedOf tagged).map (EmployeeRecord.toRow b)
  | .error _, db => ∃ batch, db.batch b = some batch ∧ batch.status = .failed

theorem Recorded.completedWith {errors : List String} {rows : List EmployeeRow} {db : Db}
    (h : Recorded (fun _ => False) b errors rows db) : db.CompletedWith b errors := by
  obtain ⟨batch, hbatch⟩ := Option.isSome_iff_exists.mp ((batch_isSome_iff db).mpr h.mem)
  obtain ⟨hstatus, herrors⟩ := (h.status batch hbatch).resolve_left id
  exact ⟨batch, hbatch, hstatus, herrors⟩

/-- A pending batch does not stay pending: when the worker returns, the batch is completed with all
the errors of its file, and when it raises, the batch is failed. Any call of `_process` may raise,
and other transactions may commit in between, except to this batch; what is left of the schedule
when `_process` has raised, which is what `mark_batch_failed` gets, has no fault. -/
theorem streamAndProcess_never_leaves_pending {cfg : Settings} {sched : ℕ → List Write × Choice}
    (hpending : w.server.pending = [])
    (hbatch : ∃ batch, w.db.batch b = some batch ∧ batch.status = .pending)
    (hothers : ∀ n, ∀ wr ∈ (sched n).1, wr.Avoids b)
    (hmark : ∀ e left w', (process b cfg).run (sharedMachine pid) sched w =
      some (.error e, left, w') → ∀ n, (left n).2.fault = none) :
    ∃ r left w', (streamAndProcess b cfg).run (sharedMachine pid) sched w = some (r, left, w') ∧
      Handled b cfg.employeeChunkSize (w.storage (employeesKey cfg b)) (w.db.rowsOf b) r w'.db := by
  have hown : ∀ q, w.server.own q = [] := fun q => by
    simp [Txn.Server.own, hpending]
  have hs : Holding pid (Written (· = .pending) b (w.db.rowsOf b) []) (Writing []) w :=
    ⟨⟨hbatch, by simp [acceptedOf]⟩, writing_nil.mpr (hown pid)⟩
  have hprocess : (process b cfg).Ensures ((unpolled b fun _ _ => True).env pid) _ w :=
    ensures_process (unpolled_host _ _ _) trivial hs rfl
  obtain ⟨r, m, w₁, hrun, hend, hunshared⟩ :=
    ensures_run_shared hprocess (fun q _ => hown q) hothers fun _ _ => trivial
  unfold streamAndProcess
  -- `_process` has closed the batch, or its exception is handled
  rw [Program.run_tryExcept, hrun]
  cases r with
  | ok _ =>
      refine ⟨_, _, w₁, rfl, ?_⟩
      obtain ⟨file, records, parseErrors, chunks, tagged, hfile, hparse, hchunks, htagged, h⟩ := hend
      exact ⟨file, records, parseErrors, chunks, tagged, hfile, hparse, hchunks, htagged,
        h.completedWith, h.rowsOf⟩
  | error e =>
      have hmem : Key.batch b ∈ w₁.db.keys := Aborted.mem hend
      -- the handler starts in any state, and its calls go through
      have hcalm := hmark e _ w₁ hrun
      obtain ⟨r', m', w₂, hrun', hfailed, -⟩ := ensures_run_shared
        (ensures_markBatchFailed_undisturbed hmem) hunshared
        (fun n => hothers (n + m)) (fun n _ => hcalm n)
      show ∃ r left w', ((markBatchFailed b).bind fun _ => .throw e).run _ _ _ = _ ∧ _
      rw [Program.run_bind, hrun']
      cases r' with
      | ok _ => exact ⟨_, _, w₂, rfl, hfailed⟩
      | error e' => exact ⟨_, _, w₂, rfl, hfailed⟩

end Run

/-- A schedule in which the call number `k` raises an `OperationalError` before it has any
effect. -/
def faultAt (k : ℕ) (n : ℕ) : List Write × Choice :=
  ([], { Choice.calm with
    fault := if n = k then some ⟨.operational "server closed the connection", false, true⟩ else none })

theorem streamAndProcess_never_leaves_pending_sample :
    let w := World.initial sampleDb fun _ => some (sampleFile [65])
    ∃ r left w', (streamAndProcess 7 sampleSettings).run (sharedMachine 0) (faultAt 5) w =
        some (r, left, w') ∧
      Handled 7 sampleSettings.employeeChunkSize (w.storage (employeesKey sampleSettings 7))
        (w.db.rowsOf 7) r w'.db := by
  refine streamAndProcess_never_leaves_pending rfl ⟨_, rfl, rfl⟩ (fun _ _ h => nomatch h) ?_
  intro e left w' hrun n
  -- the deletion from the cache is the sixth call, and the last one of `_process`
  have hleft := congrArg (Option.map fun o => o.2.1) hrun
  change some (fun n => faultAt 5 (n + 6)) = some left at hleft
  have hne : n + 6 ≠ 5 := by omega
  rw [← Option.some.inj hleft]
  simp [faultAt, hne]

end HiringService
