import HiringService.Service.Ledger

/-!
# What a poll answers

A poll beside any number of other processes. Its answer is that of a committed row that it has read
while it was running; only a poll that has timed the batch out answers errors which it has read
after that (`poll_answers_a_committed_row`). A batch only leaves `pending`, and time only moves on: once
a batch is older than the timeout, no poll that starts then answers `pending`, and the batch is no
longer pending once such a poll has returned (`expired_batch_settles`).
-/

namespace HiringService

open Effect (Program)
open Ledger (Entry)

/-! ## The code of a poll -/

section Poll

variable {cfg : Settings} {b : BatchId} {batch : IngestionBatch}

/-- What follows the call that loads the row again after the timeout. -/
def afterRefresh : Except Exn (Option IngestionBatch) → Prog Response
  | .ok (some batch) => .pure (.status ⟨batch.id, .failed, batch.errors.getD []⟩)
  | .ok none => .throw .objectDeleted
  | .error e => .throw e

/-- What follows the commit of the timeout. -/
def afterTimeout (b : BatchId) : Except Exn Unit → Prog Response
  | .ok _ => .call (.batchGet b) afterRefresh
  | .error e => .throw e

/-- What follows the update that times the batch out. -/
def afterUpdate (b : BatchId) : Except Exn Unit → Prog Response
  | .ok _ => .call .commit (afterTimeout b)
  | .error e => .throw e

/-- What follows the look at the clock. -/
def afterNow (cfg : Settings) (b : BatchId) (batch : IngestionBatch) : Except Exn ℕ → Prog Response
  | .ok now =>
      if isStale cfg batch.createdAt now then
        .call (.statement (.updateStatus b .failed [])) (afterUpdate b)
      else .pure (.status batch.response)
  | .error e => .throw e

/-- What follows the call that reads the row. -/
def afterRead (cfg : Settings) (b : BatchId) : Except Exn (Option IngestionBatch) → Prog Response
  | .ok (some batch) =>
      if batch.status = .pending then .call .now (afterNow cfg b batch)
      else .pure (.status batch.response)
  | .ok none => .throw (.batchNotFound b)
  | .error e => .throw e

/-- A poll that fails its batch begins with the update. -/
theorem program_failStale (b : BatchId) :
    ((failStale b).bind fun response => .pure (.status response) : Prog Response) =
      .call (.statement (.updateStatus b .failed [])) (afterUpdate b) := by
  refine congrArg (Program.call _) (funext fun r => ?_)
  rcases r with e | _
  · rfl
  refine congrArg (Program.call _) (funext fun r => ?_)
  rcases r with e | _
  · rfl
  refine congrArg (Program.call _) (funext fun r => ?_)
  rcases r with e | (_ | batch)
  · rfl
  · rfl
  · rfl

/-- A poll begins with the read of its batch. -/
theorem program_getBatchStatus (cfg : Settings) (b : BatchId) :
    (Request.getBatchStatus b).program cfg = .call (.batchGet b) (afterRead cfg b) := by
  refine congrArg (Program.call _) (funext fun r => ?_)
  rcases r with e | (_ | batch)
  · rfl
  · rfl
  show Program.bind (if batch.status = .pending then _ else _) _ = _
  rw [afterRead]
  by_cases hpending : batch.status = .pending
  · rw [if_pos hpending, if_pos hpending]
    refine congrArg (Program.call _) (funext fun r => ?_)
    rcases r with e | now
    · rfl
    show Program.bind (if isStale cfg batch.createdAt now = true then _ else _) _ = _
    rw [afterNow]
    by_cases hstale : isStale cfg batch.createdAt now = true
    · rw [if_pos hstale, if_pos hstale]
      exact program_failStale b
    · rw [if_neg hstale, if_neg hstale]
      rfl
  · rw [if_neg hpending, if_neg hpending]
    rfl

end Poll

/-! ## Batches and time go forward -/

/-- The row of a batch later on: created at the same time, and pending only if it was so before. -/
def IngestionBatch.Advances (batch batch' : IngestionBatch) : Prop :=
  batch'.createdAt = batch.createdAt ∧ (batch'.status = .pending → batch.status = .pending)

/-- What a request enters advances the rows of the batches that exist. -/
theorem Request.Makes.advances {file : Bytes} {request : Request} {e : Entry}
    (h : request.Makes file e) {db : Db} {b : BatchId} {batch : IngestionBatch}
    (hbatch : db.batch b = some batch) :
    ∃ batch', (e.apply db).batch b = some batch' ∧ batch.Advances batch' := by
  -- an update never goes back to pending
  have hupdate : ∀ (b' : BatchId) (status : IngestionBatchStatus) (errors : List String),
      status ≠ .pending → ∃ batch', (db.apply (.updateBatch b' status errors)).batch b = some batch' ∧
        batch.Advances batch' := by
    intro b' status errors hstatus
    rcases eq_or_ne b' b with rfl | hne
    · rw [apply_updateBatch_batch_self, hbatch]
      exact ⟨_, rfl, rfl, fun hpending => absurd hpending hstatus⟩
    · have havoids : (Write.updateBatch b' status errors).Avoids b := hne
      rw [batch_apply_of_avoids havoids]
      exact ⟨batch, hbatch, rfl, id⟩
  -- and a new batch goes behind the others
  have happend : ∀ more : List IngestionBatch,
      (db.batches ++ more).find? (fun batch => batch.id = b) = some batch := by
    intro more
    rw [List.find?_append, show db.batches.find? _ = some batch from hbatch]
    rfl
  cases h with
  | @ingest t =>
      refine ⟨batch, ?_, rfl, id⟩
      cases t <;> exact happend _
  | upload => exact ⟨batch, happend _, rfl, id⟩
  | write => exact ⟨batch, hbatch, rfl, id⟩
  | complete => exact hupdate _ _ _ nofun
  | fail => exact hupdate _ _ _ nofun
  | timeout => exact hupdate _ _ _ nofun

namespace Service

variable {cfg : Settings} {ok : Service → Label → Prop} {s₀ s s' : Service} {l : Label}
  {b : BatchId} {batch : IngestionBatch}

/-- The clock does not go back in a step. -/
theorem Move.clock_le (h : Move cfg s l s') : s.world.clock ≤ s'.world.clock := by
  cases h with
  | call _ hexec => exact (exec_called hexec).clock.ge
  | tick n => exact Nat.le_add_right _ n
  | _ => exact Nat.le_refl _

/-- The clock does not go back in a run. -/
theorem clock_le_of_runs (hruns : Runs cfg ok s s') : s.world.clock ≤ s'.world.clock := by
  induction hruns with
  | refl => exact Nat.le_refl _
  | tail _ hnext ih =>
      obtain ⟨l, -, hl⟩ := hnext
      exact ih.trans (move_of_step hl).clock_le

/-- A committed batch only advances in a step. -/
theorem Kept.batch_step (h : s.Kept cfg) (hmove : Move cfg s l s')
    (hbatch : s.world.db.batch b = some batch) :
    ∃ batch', s'.world.db.batch b = some batch' ∧ batch.Advances batch' := by
  rcases h.enters hmove with hsame | ⟨q, e, ⟨_, _, _, -, -, hmakes⟩, -, hdb⟩
  · exact ⟨batch, hsame ▸ hbatch, rfl, id⟩
  · rw [hdb]
    exact hmakes.advances hbatch

/-- A committed batch only advances in a run. -/
theorem Kept.batch_runs (h : s.Kept cfg) (hruns : Runs cfg ok s s')
    (hbatch : s.world.db.batch b = some batch) :
    ∃ batch', s'.world.db.batch b = some batch' ∧ batch.Advances batch' := by
  induction hruns with
  | refl => exact ⟨batch, hbatch, rfl, id⟩
  | tail hbefore hnext ih =>
      obtain ⟨batch₁, hbatch₁, hcreated₁, hstatus₁⟩ := ih
      obtain ⟨l, -, hl⟩ := hnext
      obtain ⟨batch₂, hbatch₂, hcreated₂, hstatus₂⟩ :=
        (h.runs hbefore).batch_step (move_of_step hl) hbatch₁
      exact ⟨batch₂, hbatch₂, hcreated₂.trans hcreated₁, fun hpending => hstatus₁ (hstatus₂ hpending)⟩

/-! ## The run of a poll -/

/-- Between `s₀` and `s` the poll `q` of batch `b` has called `op` in the state `s₁`; this has led to
`s₂`. -/
structure Asked (cfg : Settings) (ok : Service → Label → Prop) (s₀ s : Service) (q : Pid)
    (b : BatchId) (op : Op) (s₁ s₂ : Service) : Prop where
  before : Runs cfg ok s₀ s₁
  calls : ∃ k, s₁.procs q = some ⟨.getBatchStatus b, .running (.call op k)⟩
  step : ∃ c, ok s₁ (.call q c) ∧ s₁.step cfg (.call q c) = some s₂
  after : Runs cfg ok s₂ s

/-- Between `s₀` and `s` the poll has read the row, and `batch` was the committed one. -/
structure HasRead (cfg : Settings) (ok : Service → Label → Prop) (s₀ s : Service) (q : Pid)
    (b : BatchId) (s₁ s₂ : Service) (batch : IngestionBatch) : Prop
    extends Asked cfg ok s₀ s q b (.batchGet b) s₁ s₂ where
  row : s₁.world.db.batch b = some batch

/-- Between `s₀` and `s` the poll has read that the batch was pending, and then looked at the clock:
the batch was or was not older than the timeout. -/
structure HasLooked (cfg : Settings) (ok : Service → Label → Prop) (s₀ s : Service) (q : Pid)
    (b : BatchId) (batch : IngestionBatch) (stale : Bool) : Prop where
  pending : batch.status = .pending
  looked : ∃ s₁ s₂ s₃ s₄, HasRead cfg ok s₀ s q b s₁ s₂ batch ∧ Asked cfg ok s₂ s q b .now s₃ s₄ ∧
    isStale cfg batch.createdAt s₃.world.clock = stale

/-- Between `s₀` and `s` the poll has found the batch pending and older than the timeout. After
that, with the step from `s₁` to `s₂`, it has committed that the batch has failed, and nothing
else. -/
structure HasTimedOut (cfg : Settings) (ok : Service → Label → Prop) (s₀ s : Service) (q : Pid)
    (b : BatchId) (s₁ s₂ : Service) : Prop extends Asked cfg ok s₀ s q b .commit s₁ s₂ where
  looked : ∃ batch, HasLooked cfg ok s₀ s₁ q b batch true
  writes : s₁.world.server.writes q = [.updateBatch b .failed []]
  commits : s₂.world.db = s₁.world.db.apply (.updateBatch b .failed [])

/-- What a poll answers, which has started after `s₀` and has returned before `s`. -/
inductive Answered (cfg : Settings) (ok : Service → Label → Prop) (s₀ s : Service) (q : Pid)
    (b : BatchId) : BatchStatusResponse → Prop
  /-- The batch had ended when the poll has read its row. -/
  | ended {s₁ s₂ : Service} {batch : IngestionBatch} (hread : HasRead cfg ok s₀ s q b s₁ s₂ batch)
      (hended : batch.status ≠ .pending) :
      Answered cfg ok s₀ s q b ⟨b, batch.status, batch.errors.getD []⟩
  /-- The batch was pending, and not older than the timeout when the poll has looked at the clock. -/
  | pending {batch : IngestionBatch} (hlooked : HasLooked cfg ok s₀ s q b batch false) :
      Answered cfg ok s₀ s q b ⟨b, .pending, batch.errors.getD []⟩
  /-- The poll has timed the batch out, and then has read its errors again. -/
  | timedOut {s₁ s₂ s₃ s₄ : Service} {batch : IngestionBatch}
      (htimedOut : HasTimedOut cfg ok s₀ s q b s₁ s₂)
      (hread : HasRead cfg ok s₂ s q b s₃ s₄ batch) :
      Answered cfg ok s₀ s q b ⟨b, .failed, batch.errors.getD []⟩

/-- How far a poll can be, with what it has seen since `s₀` and the writes of its session. -/
inductive PollStage (cfg : Settings) (ok : Service → Label → Prop) (s₀ s : Service) (q : Pid)
    (b : BatchId) : Prog Response → Prop
  | read (hown : s.world.server.writes q = []) :
      PollStage cfg ok s₀ s q b (.call (.batchGet b) (afterRead cfg b))
  | now {s₁ s₂ : Service} {batch : IngestionBatch} (hown : s.world.server.writes q = [])
      (hread : HasRead cfg ok s₀ s q b s₁ s₂ batch) (hpending : batch.status = .pending) :
      PollStage cfg ok s₀ s q b (.call .now (afterNow cfg b batch))
  | update {batch : IngestionBatch} (hown : s.world.server.writes q = [])
      (hlooked : HasLooked cfg ok s₀ s q b batch true) :
      PollStage cfg ok s₀ s q b (.call (.statement (.updateStatus b .failed [])) (afterUpdate b))
  | timeout {batch : IngestionBatch} (hown : s.world.server.writes q = [.updateBatch b .failed []])
      (hlooked : HasLooked cfg ok s₀ s q b batch true) :
      PollStage cfg ok s₀ s q b (.call .commit (afterTimeout b))
  | refresh {s₁ s₂ : Service} (hown : s.world.server.writes q = [])
      (htimedOut : HasTimedOut cfg ok s₀ s q b s₁ s₂) :
      PollStage cfg ok s₀ s q b (.call (.batchGet b) afterRefresh)
  | answered {response} (h : Answered cfg ok s₀ s q b response) :
      PollStage cfg ok s₀ s q b (.pure (.status response))
  | raised (e : Exn) : PollStage cfg ok s₀ s q b (.throw e)

/-- What is known of a poll that has come to `status`. -/
def PollAt (cfg : Settings) (ok : Service → Label → Prop) (s₀ s : Service) (q : Pid) (b : BatchId) :
    Status → Prop
  | .running rest => PollStage cfg ok s₀ s q b rest
  | .returned response => ∃ answer, response = .status answer ∧ Answered cfg ok s₀ s q b answer
  | _ => True

section Stages

variable {q : Pid} {op : Op} {s₁ s₂ : Service} {stale : Bool} {response : BatchStatusResponse}
  {rest : Prog Response}

/-- What was called stays called when the run goes on. -/
theorem Asked.step_run (h : Asked cfg ok s₀ s q b op s₁ s₂) (hnext : Next cfg ok s s') :
    Asked cfg ok s₀ s' q b op s₁ s₂ :=
  { h with after := h.after.tail hnext }

/-- What was read stays read. -/
theorem HasRead.step_run (h : HasRead cfg ok s₀ s q b s₁ s₂ batch) (hnext : Next cfg ok s s') :
    HasRead cfg ok s₀ s' q b s₁ s₂ batch :=
  { h with after := h.after.tail hnext }

/-- A poll that has looked at the clock has done so for good. -/
theorem HasLooked.step_run (h : HasLooked cfg ok s₀ s q b batch stale) (hnext : Next cfg ok s s') :
    HasLooked cfg ok s₀ s' q b batch stale := by
  obtain ⟨hpending, s₁, s₂, s₃, s₄, hread, hlooks, hstale⟩ := h
  exact ⟨hpending, s₁, s₂, s₃, s₄, hread.step_run hnext, hlooks.step_run hnext, hstale⟩

/-- A poll that has timed out its batch has done so for good. -/
theorem HasTimedOut.step_run (h : HasTimedOut cfg ok s₀ s q b s₁ s₂) (hnext : Next cfg ok s s') :
    HasTimedOut cfg ok s₀ s' q b s₁ s₂ :=
  { h with after := h.after.tail hnext }

/-- What was answered stays answered. -/
theorem Answered.step_run (h : Answered cfg ok s₀ s q b response) (hnext : Next cfg ok s s') :
    Answered cfg ok s₀ s' q b response := by
  cases h with
  | ended hread hended => exact .ended (hread.step_run hnext) hended
  | pending hlooked => exact .pending (hlooked.step_run hnext)
  | timedOut htimedOut hread => exact .timedOut (htimedOut.step_run hnext) (hread.step_run hnext)

/-- The call was made in a state before the last one. -/
theorem Asked.run (h : Asked cfg ok s₀ s q b op s₁ s₂) : Runs cfg ok s₁ s := by
  obtain ⟨c, hok, hstep⟩ := h.step
  exact .head ⟨_, hok, hstep⟩ h.after

/-- The row that a poll has looked at the clock for was committed before. -/
theorem HasLooked.row (h : HasLooked cfg ok s₀ s q b batch stale) :
    ∃ s₁, Runs cfg ok s₀ s₁ ∧ Runs cfg ok s₁ s ∧ s₁.world.db.batch b = some batch := by
  obtain ⟨-, s₁, s₂, s₃, s₄, hread, -, -⟩ := h
  exact ⟨s₁, hread.before, hread.run, hread.row⟩

/-- A poll that has timed the batch out has committed a row of it that has failed. -/
theorem HasTimedOut.failed (h : HasTimedOut cfg ok s₀ s q b s₁ s₂) (hkept₀ : s₀.Kept cfg) :
    ∃ batch, s₂.world.db.batch b = some batch ∧ batch.status = .failed := by
  obtain ⟨batch, hlooked⟩ := h.looked
  obtain ⟨s', hbefore, hafter, hbatch⟩ := hlooked.row
  obtain ⟨batch', hbatch', -⟩ := (hkept₀.runs hbefore).batch_runs hafter hbatch
  refine ⟨{ batch' with status := .failed, errors := some [] }, ?_, rfl⟩
  rw [h.commits, apply_updateBatch_batch_self, hbatch']
  rfl

/-- The status that a poll answers is that of a row which was committed before it has returned. -/
theorem Answered.row (h : Answered cfg ok s₀ s q b response) (hkept₀ : s₀.Kept cfg) :
    ∃ s₁ batch, Runs cfg ok s₀ s₁ ∧ Runs cfg ok s₁ s ∧ s₁.world.db.batch b = some batch ∧
      response.status = batch.status := by
  cases h with
  | ended hread => exact ⟨_, _, hread.before, hread.run, hread.row, rfl⟩
  | pending hlooked =>
      obtain ⟨s₁, hbefore, hafter, hrow⟩ := hlooked.row
      exact ⟨s₁, _, hbefore, hafter, hrow, hlooked.pending.symm⟩
  | timedOut htimedOut =>
      obtain ⟨batch, hbatch, hfailed⟩ := htimedOut.failed hkept₀
      obtain ⟨c, hok, hstep⟩ := htimedOut.step
      exact ⟨_, batch, htimedOut.before.tail ⟨_, hok, hstep⟩, htimedOut.after, hbatch, hfailed.symm⟩

/-- The answer is about the batch that was asked for. -/
theorem Answered.batchId (h : Answered cfg ok s₀ s q b response) : response.batchId = b := by
  cases h <;> rfl

/-- A step that leaves the session of the poll alone. -/
theorem PollStage.beside (h : PollStage cfg ok s₀ s q b rest) (hnext : Next cfg ok s s')
    (hown : s'.world.server.writes q = s.world.server.writes q) :
    PollStage cfg ok s₀ s' q b rest := by
  cases h with
  | read hnil => exact .read (hown.trans hnil)
  | now hnil hread hpending => exact .now (hown.trans hnil) (hread.step_run hnext) hpending
  | update hnil hlooked => exact .update (hown.trans hnil) (hlooked.step_run hnext)
  | timeout hwrites hlooked => exact .timeout (hown.trans hwrites) (hlooked.step_run hnext)
  | refresh hnil htimedOut => exact .refresh (hown.trans hnil) (htimedOut.step_run hnext)
  | answered h => exact .answered (h.step_run hnext)
  | raised e => exact .raised e

/-- A session that has written nothing still has written nothing after a call that is no
statement. -/
theorem writes_of_called {pid : Pid} {op : Op} {w w' : World} (h : Called pid op w w')
    (hop : ∀ st, op ≠ .statement st) (hnil : w.server.writes pid = []) :
    w'.server.writes pid = [] := by
  rcases h.own_self with hsub | ⟨st, rfl, -⟩
  · exact List.sublist_nil.mp (hnil ▸ hsub.map _)
  · exact absurd rfl (hop st)

/-- The look at the clock. -/
theorem exec_now {pid : Pid} {c : Choice} {w w' : World} {r : Except Exn ℕ}
    (h : exec pid c w .now = some (r, w')) : ∀ now, r = .ok now → now = w.clock := by
  rcases exec_cases h with hattempt | ⟨f, -, rfl, -⟩
  · cases hattempt
    exact fun now hnow => (Except.ok.inj hnow).symm
  · exact fun now hnow => by cases hnow

/-- Where the poll is once it has read the batch. -/
theorem PollStage.afterRead (hasked : Asked cfg ok s₀ s' q b (.batchGet b) s s')
    {r : Except Exn (Option IngestionBatch)}
    (hfound : ∀ found, r = .ok found → found = s.world.db.batch b)
    (hown : s'.world.server.writes q = []) :
    PollStage cfg ok s₀ s' q b (afterRead cfg b r) := by
  rcases r with e | (_ | batch)
  · exact .raised e
  · exact .raised _
  have hbatch : s.world.db.batch b = some batch := (hfound _ rfl).symm
  have hid : batch.id = b := by simpa using List.find?_some hbatch
  rw [HiringService.afterRead]
  by_cases hpending : batch.status = .pending
  · rw [if_pos hpending]
    exact .now hown ⟨hasked, hbatch⟩ hpending
  · rw [if_neg hpending, IngestionBatch.response, hid]
    exact .answered (.ended ⟨hasked, hbatch⟩ hpending)

/-- Where the poll is once it has looked at the clock. -/
theorem PollStage.afterNow (hread : HasRead cfg ok s₀ s' q b s₁ s₂ batch)
    (hpending : batch.status = .pending) (hasked : Asked cfg ok s₂ s' q b .now s s')
    {r : Except Exn ℕ} (hnow : ∀ now, r = .ok now → now = s.world.clock)
    (hown : s'.world.server.writes q = []) :
    PollStage cfg ok s₀ s' q b (afterNow cfg b batch r) := by
  rcases r with e | now
  · exact .raised e
  obtain rfl := hnow now rfl
  rw [HiringService.afterNow]
  by_cases hstale : isStale cfg batch.createdAt s.world.clock = true
  · rw [if_pos hstale]
    exact .update hown ⟨hpending, _, _, _, _, hread, hasked, hstale⟩
  · have hid : batch.id = b := by simpa using List.find?_some hread.row
    rw [if_neg hstale, IngestionBatch.response, hid, hpending]
    exact .answered (.pending ⟨hpending, _, _, _, _, hread, hasked, eq_false_of_ne_true hstale⟩)

/-- The update that times the batch out goes through, because the batch still exists. -/
theorem writes_of_update (hkept₀ : s₀.Kept cfg) (hlooked : HasLooked cfg ok s₀ s q b batch stale)
    (hown : s.world.server.writes q = []) {c : Choice} {w : World}
    (hexec : exec q c s.world (.statement (.updateStatus b .failed [])) = some (.ok (), w)) :
    w.server.writes q = [.updateBatch b .failed []] := by
  obtain ⟨-, -, -, -, ⟨-, hrecorded⟩ | ⟨-, hskip⟩⟩ := exec_statement hexec
  · rw [Txn.Server.writes, hrecorded, List.map_append, show List.map _ _ = [] from hown]
    rfl
  · obtain ⟨sql, hplan⟩ := hskip rfl
    have hspec := plan_updateStatus_spec (s.world.view q) (s.world.server.others q) s.world.clock sql b
      .failed []
    rw [hplan] at hspec
    obtain ⟨s₁, hbefore, hafter, hrow⟩ := hlooked.row
    obtain ⟨batch', hbatch', -⟩ := (hkept₀.runs hbefore).batch_runs hafter hrow
    refine absurd ?_ hspec
    have hmem : Key.batch b ∈ s.world.db.keys := (batch_isSome_iff _).mp (by rw [hbatch']; rfl)
    rwa [World.view, Txn.Server.view, hown]

/-- The calls of a poll lead from stage to stage. -/
theorem PollStage.call {op : Op} {k : Except Exn (Reply op) → Prog Response}
    (h : PollStage cfg ok s₀ s q b (.call op k)) (hkept : s₀.Kept cfg) (hruns : Runs cfg ok s₀ s)
    (hproc : s.procs q = some ⟨.getBatchStatus b, .running (.call op k)⟩) {c : Choice}
    (hok : ok s (.call q c)) (hstep : s.step cfg (.call q c) = some s') {r : Except Exn (Reply op)}
    (hexec : exec q c s.world op = some (r, s'.world)) :
    PollStage cfg ok s₀ s' q b (k r) := by
  have hnext : Next cfg ok s s' := ⟨_, hok, hstep⟩
  have hasked : ∀ {s₁}, Runs cfg ok s₁ s → Asked cfg ok s₁ s' q b op s s' :=
    fun hbefore => ⟨hbefore, ⟨k, hproc⟩, ⟨c, hok, hstep⟩, .refl⟩
  cases h with
  | read hnil =>
      obtain ⟨-, hown', hfound⟩ := exec_batchGet hexec (List.map_eq_nil_iff.mp hnil)
      exact PollStage.afterRead (hasked hruns) hfound (List.map_eq_nil_iff.mpr hown')
  | now hnil hread hpending =>
      exact PollStage.afterNow (hread.step_run hnext) hpending (hasked hread.after) (exec_now hexec)
        (writes_of_called (exec_called hexec) nofun hnil)
  | update hnil hlooked =>
      rcases r with e | _
      · exact .raised e
      · exact .timeout (writes_of_update hkept hlooked hnil hexec) (hlooked.step_run hnext)
  | timeout hwrites hlooked =>
      rcases r with e | _
      · exact .raised e
      rcases exec_commit hexec with ⟨hpublished, -⟩ | ⟨e, he, -⟩
      · -- the transaction of the poll held the update and nothing else
        have hcommits : s'.world.db = s.world.db.apply (.updateBatch b .failed []) := by
          rw [hpublished.db, World.view, Txn.Server.view, hwrites, List.foldl_cons, List.foldl_nil]
        exact .refresh (List.map_eq_nil_iff.mpr hpublished.own_self)
          ⟨hasked hruns, ⟨_, hlooked⟩, hwrites, hcommits⟩
      · cases he
  | refresh hnil htimedOut =>
      obtain ⟨-, -, hfound⟩ := exec_batchGet hexec (List.map_eq_nil_iff.mp hnil)
      rcases r with e | (_ | batch)
      · exact .raised e
      · exact .raised _
      have hbatch : s.world.db.batch b = some batch := (hfound _ rfl).symm
      have hid : batch.id = b := by simpa using List.find?_some hbatch
      rw [afterRefresh, hid]
      exact .answered (.timedOut (htimedOut.step_run hnext) ⟨hasked htimedOut.after, hbatch⟩)

end Stages

/-! ## Runs with a poll -/

section Runs

variable {q : Pid}

/-- A step takes a poll from one stage to the next. -/
theorem PollAt.step (hkept₀ : s₀.Kept cfg) (hruns : Runs cfg ok s₀ s) (hnext : Next cfg ok s s')
    (h : ∀ status, s.procs q = some ⟨.getBatchStatus b, status⟩ → PollAt cfg ok s₀ s q b status)
    {status' : Status} (hproc' : s'.procs q = some ⟨.getBatchStatus b, status'⟩) :
    PollAt cfg ok s₀ s' q b status' := by
  have hstep := hnext
  obtain ⟨l, hok, hl⟩ := hstep
  have htidy := (hkept₀.runs hruns).orderly.tidy
  have hwrites : ∀ {actor}, Shift s l actor s'.world → actor ≠ some q →
      s'.world.server.writes q = s.world.server.writes q :=
    fun hshift hne => congrArg (List.map Txn.Entry.write) (hshift.own hne)
  rcases (move_of_step hl).turn q with ⟨hsame, hne, hshift⟩ | ⟨hnew, hproc, hne, hshift, -⟩ |
    ⟨rfl, hcalls, hexec, hproc⟩ | ⟨hproc, hended, hends, -⟩
  · -- somebody else moves
    have hat := h status' (hsame.symm.trans hproc')
    rcases status' with rest | response | e | _
    · exact PollStage.beside hat hnext (hwrites hshift hne)
    · obtain ⟨answer, hresponse, hanswered⟩ := hat
      exact ⟨answer, hresponse, hanswered.step_run hnext⟩
    · trivial
    · trivial
  · cases hproc.symm.trans hproc'
    -- the poll starts
    rw [PollAt, program_getBatchStatus]
    exact .read ((hwrites hshift hne).trans (List.map_eq_nil_iff.mpr (htidy.own_of_none hnew)))
  · cases hproc.symm.trans hproc'
    -- the poll makes a call
    exact PollStage.call (h _ hcalls) hkept₀ hruns hcalls hok hl hexec
  · cases hended.symm.trans hproc'
    have hat := h _ hproc
    cases hends with
    | returned response =>
        cases hat with
        | answered hanswered => exact ⟨_, rfl, hanswered.step_run hnext⟩
    | raised e => trivial
    | cut => trivial

/-- A poll that starts after `s₀`. -/
theorem pollAt_of_runs (hkept₀ : s₀.Kept cfg) (hnew : s₀.procs q = none) (hruns : Runs cfg ok s₀ s) :
    ∀ status, s.procs q = some ⟨.getBatchStatus b, status⟩ → PollAt cfg ok s₀ s q b status := by
  induction hruns with
  | refl => exact fun status hproc => by cases hnew.symm.trans hproc
  | tail hbefore hnext ih => exact fun status hproc => PollAt.step hkept₀ hbefore hnext ih hproc

/-- A poll that starts after `s₀` and has returned. -/
theorem answered_of_runs (hkept₀ : s₀.Kept cfg) (hnew : s₀.procs q = none)
    (hruns : Runs cfg ok s₀ s) {response : Response}
    (hproc : s.procs q = some ⟨.getBatchStatus b, .returned response⟩) :
    ∃ answer, response = .status answer ∧ Answered cfg ok s₀ s q b answer :=
  pollAt_of_runs hkept₀ hnew hruns _ hproc

/-- A poll answers the status and the errors of a committed row that it has read while it was
running: one of a batch that had ended, or of one that was pending and, when the poll has looked at
the clock, had not reached the timeout. Only a poll that has timed the batch out itself answers
`failed` with errors that it has read after that. -/
theorem poll_answers_a_committed_row {ok' : Service → Label → Prop} {db : Db}
    {storage : ObjectKey → Option Bytes} (hruns₀ : Runs cfg ok' (initial db storage) s₀)
    (hnew : s₀.procs q = none) (hruns : Runs cfg ok s₀ s) {response : Response}
    (hproc : s.procs q = some ⟨.getBatchStatus b, .returned response⟩) :
    ∃ answer, response = .status answer ∧ Answered cfg ok s₀ s q b answer :=
  answered_of_runs ((kept_initial db storage).runs hruns₀) hnew hruns hproc

/-- A poll that times a batch out while its worker completes it: the worker commits between the
commit of the poll and the call that loads the row again. -/
def overtakenPoll : List Label :=
  clashingUpload ++ List.replicate 9 (.call 1 .calm) ++
    [.tick 600000001, .arrive 2 (.getBatchStatus 8), .call 2 .calm, .call 2 .calm, .call 2 .calm,
      .call 2 .calm, .call 1 .calm, .call 1 .calm, .call 2 .calm, .finish 2 2]

/-- The batch and the answer of a poll that has returned. -/
def answerOf (s : Service) (q : Pid) : Option (BatchId × BatchStatusResponse) :=
  match s.procs q with
  | some ⟨.getBatchStatus b, .returned (.status answer)⟩ => some (b, answer)
  | _ => none

/-- An answer that can be computed is that of a poll that has returned. -/
theorem returned_of_answerOf {answer : BatchStatusResponse} (h : s.answerOf q = some (b, answer)) :
    s.procs q = some ⟨.getBatchStatus b, .returned (.status answer)⟩ := by
  unfold answerOf at h
  split at h
  · rename_i b' answer' hproc
    cases h
    exact hproc
  · cases h

theorem poll_answers_a_committed_row_sample :
    ∃ s, (initial sampleDb fun _ => none).follow sampleSettings (fun _ _ => true) overtakenPoll =
        some s ∧
      ∃ answer, Response.status ⟨8, .failed, ["1:B"]⟩ = .status answer ∧
        Answered sampleSettings (fun _ _ => True) (initial sampleDb fun _ => none) s 2 8 answer := by
  have hend : ((initial sampleDb fun _ => none).follow sampleSettings (fun _ _ => true)
      overtakenPoll).map (fun s => s.answerOf 2) = some (some (8, ⟨8, .failed, ["1:B"]⟩)) := by
    decide +kernel
  obtain ⟨s, hs, hanswer⟩ := Option.map_eq_some_iff.mp hend
  have hnone : Runs sampleSettings (fun _ _ => True) (initial sampleDb fun _ => none)
    (initial sampleDb fun _ => none) := .refl
  exact ⟨s, hs, poll_answers_a_committed_row hnone rfl (runs_of_test (fun _ _ _ => trivial) hs)
    (returned_of_answerOf hanswer)⟩

/-- Once a batch is older than the timeout, a poll that starts and returns an answer does not answer
`pending`, and from then on the committed batch is not pending. -/
theorem expired_batch_settles {ok' : Service → Label → Prop} {db : Db}
    {storage : ObjectKey → Option Bytes} (hruns₀ : Runs cfg ok' (initial db storage) s₀)
    (hbatch : s₀.world.db.batch b = some batch)
    (hstale : isStale cfg batch.createdAt s₀.world.clock = true) (hnew : s₀.procs q = none)
    (hruns : Runs cfg ok s₀ s) {answer : BatchStatusResponse}
    (hproc : s.procs q = some ⟨.getBatchStatus b, .returned (.status answer)⟩) :
    answer.status ≠ .pending ∧ ∃ batch', s.world.db.batch b = some batch' ∧ batch'.status ≠ .pending := by
  have hkept₀ : s₀.Kept cfg := (kept_initial db storage).runs hruns₀
  obtain ⟨_, hresponse, hanswered⟩ := answered_of_runs hkept₀ hnew hruns hproc
  cases hresponse
  have hsettled : answer.status ≠ .pending := by
    cases hanswered with
    | ended _ hended => exact hended
    | @pending batch' hlooked =>
        -- the row that the poll has read was created when the batch was, and time has moved on
        obtain ⟨-, s₁, s₂, s₃, s₄, hread, hlooks, hfresh⟩ := hlooked
        obtain ⟨batch'', hbatch'', hcreated, -⟩ := hkept₀.batch_runs hread.before hbatch
        obtain rfl := Option.some.inj (hbatch''.symm.trans hread.row)
        obtain ⟨c, hok, hstep⟩ := hread.step
        have hclock := clock_le_of_runs ((hread.before.tail ⟨_, hok, hstep⟩).trans hlooks.before)
        simp only [isStale, decide_eq_true_eq, decide_eq_false_iff_not, hcreated] at hstale hfresh
        omega
    | timedOut => exact nofun
  obtain ⟨s₁, batch₁, hbefore, hafter, hrow, hstatus⟩ := hanswered.row hkept₀
  obtain ⟨batch₂, hbatch₂, -, hpending⟩ := (hkept₀.runs hbefore).batch_runs hafter hrow
  exact ⟨hsettled, batch₂, hbatch₂, fun h => hsettled (hstatus.trans (hpending h))⟩

theorem expired_batch_settles_sample :
    ∃ s₀ s, (initial sampleDb fun _ => none).follow sampleSettings (fun _ _ => true)
        [.tick 600000001] = some s₀ ∧
      s₀.follow sampleSettings (fun _ _ => true) [.arrive 0 (.getBatchStatus 7), .call 0 .calm,
        .call 0 .calm, .call 0 .calm, .call 0 .calm, .call 0 .calm, .finish 0 0] = some s ∧
      IngestionBatchStatus.failed ≠ .pending ∧
      ∃ batch', s.world.db.batch 7 = some batch' ∧ batch'.status ≠ .pending := by
  have hend : (((initial sampleDb fun _ => none).follow sampleSettings (fun _ _ => true)
      [.tick 600000001]).bind fun s₀ => (s₀.follow sampleSettings (fun _ _ => true)
        [.arrive 0 (.getBatchStatus 7), .call 0 .calm, .call 0 .calm, .call 0 .calm, .call 0 .calm,
          .call 0 .calm, .finish 0 0]).map fun s => s.answerOf 0) =
      some (some (7, ⟨7, .failed, []⟩)) := by
    decide +kernel
  obtain ⟨s₀, hs₀, hrest⟩ := Option.bind_eq_some_iff.mp hend
  obtain ⟨s, hs, hanswer⟩ := Option.map_eq_some_iff.mp hrest
  have hbatch : s₀.world.db.batch 7 = some ⟨7, .pending, none, 0⟩ := by
    cases hs₀
    rfl
  have hstale : isStale sampleSettings 0 s₀.world.clock = true := by
    cases hs₀
    decide
  have hnew : s₀.procs 0 = none := by
    cases hs₀
    rfl
  have hruns₀ : Runs sampleSettings (fun _ _ => True) (initial sampleDb fun _ => none) s₀ :=
    runs_of_test (fun _ _ _ => trivial) hs₀
  have hruns : Runs sampleSettings (fun _ _ => True) s₀ s := runs_of_test (fun _ _ _ => trivial) hs
  exact ⟨s₀, s, hs₀, hs, expired_batch_settles hruns₀ hbatch hstale hnew hruns
    (returned_of_answerOf hanswer)⟩

end Runs

/-! ## Recovery -/

section Recovery

variable {q : Pid}

/-- The session of a process that does not exist yet is fresh. -/
theorem session_of_none {db : Db} {storage : ObjectKey → Option Bytes}
    (hruns : Runs cfg ok (initial db storage) s) (hnew : s.procs q = none) :
    s.world.server.sessions q = default := by
  induction hruns with
  | refl => rfl
  | @tail s₁ s₂ _ hnext ih =>
      obtain ⟨l, -, hl⟩ := hnext
      rcases (move_of_step hl).turn q with ⟨hsame, hne, hshift⟩ | ⟨-, hproc, -⟩ | ⟨-, -, -, hproc⟩ |
        ⟨-, hproc, -⟩
      · have hforeign : Foreign q (fun _ => True) (fun _ => False) s₁.world s₂.world :=
          hshift.foreign hne (fun _ _ _ _ => trivial) fun _ _ => id
        rw [hforeign.session]
        exact ih (hsame.symm.trans hnew)
      · cases hproc.symm.trans hnew
      · cases hproc.symm.trans hnew
      · cases hproc.symm.trans hnew

/-- A step that can be taken, and the labels after it. -/
theorem follow_cons (h : s.step cfg l = some s') (ls : List Label) :
    s.follow cfg (fun _ _ => true) (l :: ls) = s'.follow cfg (fun _ _ => true) ls := by
  rw [follow, if_pos rfl, h]

/-- A call of a process that is at it. -/
theorem step_call {request : Request} {op : Op} {k : Except Exn (Reply op) → Prog Response}
    {c : Choice} {r : Except Exn (Reply op)} {w : World}
    (hproc : s.procs q = some ⟨request, .running (.call op k)⟩)
    (hexec : exec q c s.world op = some (r, w)) :
    s.step cfg (.call q c) = some (s.set q ⟨request, .running (k r)⟩ w) := by
  rw [step, hproc]
  simp only [hexec]

/-- The end of a process that schedules no task. -/
theorem step_finish {request : Request} {response : Response} {task : Pid}
    (hproc : s.procs q = some ⟨request, .running (.pure response)⟩)
    (htask : request.task response = none) : s.step cfg (.finish q task) =
      some (s.set q ⟨request, .returned response⟩ (s.world.close q)) := by
  rw [step, hproc]
  simp only [htask]

/-- The world after a session that had written nothing has timed the batch out. -/
def timedOut (w : World) (q : Pid) (b : BatchId) : World :=
  ({ w with server := w.server.record q (.updateBatch b .failed []) } : World).publish q

/-- A read that nothing disturbs. -/
theorem exec_batchGet_calm {w : World} (hw : (w.server.sessions q).failed = false)
    (hnil : w.server.writes q = []) :
    exec q .calm w (.batchGet b) = some (.ok (w.db.batch b), w) := by
  have hview : w.view q = w.db := by
    rw [World.view, Txn.Server.view, hnil]
    rfl
  rw [exec_undisturbed rfl, attempt, if_neg (by simp [hw]), hview]

/-- Nobody else has the row of the batch locked, so the update goes through. -/
theorem exec_timeout_calm {w : World} (hw : (w.server.sessions q).failed = false)
    (hnil : w.server.writes q = []) (hmem : Key.batch b ∈ w.db.keys)
    (hfree : ∀ wr ∈ w.server.others q, wr.locks b = false) :
    exec q .calm w (.statement (.updateStatus b .failed [])) =
      some (.ok (), { w with server := w.server.record q (.updateBatch b .failed []) }) := by
  have hview : w.view q = w.db := by
    rw [World.view, Txn.Server.view, hnil]
    rfl
  have hlocks : ¬ (w.server.others q).any (Write.locks b) = true := by
    rw [List.any_eq_true]
    rintro ⟨wr, hwr, hlock⟩
    rw [hfree wr hwr] at hlock
    cases hlock
  have hstorable : ((Statement.updateStatus b .failed []).write w.clock).storable := by
    rintro e he
    cases he
  have hplan : (Statement.updateStatus b .failed []).plan (w.view q) (w.server.others q) w.clock
      Choice.calm.sql = .write (.updateBatch b .failed []) := by
    rw [Statement.plan, if_neg (not_not.mpr hstorable), if_neg hlocks, hview, if_pos hmem]
    rfl
  rw [exec_undisturbed rfl, attempt, if_neg (by simp [hw]), hplan]

/-- The batch as the poll sees it after its update. -/
theorem timedOut_batch {w : World} (hnil : w.server.writes q = [])
    (hbatch : w.db.batch b = some batch) :
    (timedOut w q b).db.batch b = some { batch with status := .failed, errors := some [] } := by
  have hwrites : (w.server.record q (.updateBatch b .failed [])).writes q =
      [Write.updateBatch b .failed []] := by
    rw [Txn.Server.writes, Txn.Server.record_own_self, List.map_append,
      show List.map _ _ = [] from hnil]
    rfl
  rw [timedOut, show World.db _ = World.view _ q from rfl, World.view, Txn.Server.view, hwrites,
    List.foldl_cons, List.foldl_nil, apply_updateBatch_batch_self]
  exact congrArg (Option.map _) hbatch

/-- A call of a poll that nothing disturbs, and what follows it. -/
theorem follow_poll {op : Op} {k : Except Exn (Reply op) → Prog Response} {rest : Prog Response}
    {r : Except Exn (Reply op)} {w : World} {ls : List Label}
    (hproc : s.procs q = some ⟨.getBatchStatus b, .running (.call op k)⟩)
    (hexec : exec q .calm s.world op = some (r, w)) (hrest : k r = rest) :
    s.follow cfg (fun _ _ => true) (.call q .calm :: ls) =
      (s.set q ⟨.getBatchStatus b, .running rest⟩ w).follow cfg (fun _ _ => true) ls := by
  subst hrest
  exact follow_cons (step_call hproc hexec) ls

/-- The calls of a poll that nothing disturbs. -/
def calmCalls (q : Pid) : List Label :=
  [.call q .calm, .call q .calm, .call q .calm, .call q .calm, .call q .calm, .finish q q]

/-- A poll that finds a pending batch older than the timeout reads the row, looks at the clock,
updates the row, commits and reads the row again. -/
theorem follow_calmCalls
    (hproc : s.procs q = some ⟨.getBatchStatus b, .running (.call (.batchGet b) (afterRead cfg b))⟩)
    (hfresh : s.world.server.sessions q = default) (hnil : s.world.server.writes q = [])
    (hbatch : s.world.db.batch b = some batch) (hpending : batch.status = .pending)
    (hstale : isStale cfg batch.createdAt s.world.clock = true)
    (hfree : ∀ wr ∈ s.world.server.others q, wr.locks b = false) :
    ∃ s', s.follow cfg (fun _ _ => true) (calmCalls q) = some s' ∧
      s'.procs q = some ⟨.getBatchStatus b, .returned (.status ⟨b, .failed, []⟩)⟩ ∧
      s'.world.db.batch b = some { batch with status := .failed, errors := some [] } := by
  have hmem : Key.batch b ∈ s.world.db.keys := (batch_isSome_iff _).mp (by rw [hbatch]; rfl)
  have hid : batch.id = b := by simpa using List.find?_some hbatch
  have hfailed : (s.world.server.sessions q).failed = false := by
    rw [hfresh]
    rfl
  have hdepth : (s.world.server.sessions q).savepoints.length ≤ Choice.calm.nested := by
    rw [hfresh]
    exact Nat.zero_le _
  -- the calls of the poll, one after the other, each with what it leaves of the program
  have hread : exec q .calm s.world (.batchGet b) = some (.ok (some batch), s.world) :=
    (exec_batchGet_calm hfailed hnil).trans (by rw [hbatch])
  have hnow : afterRead cfg b (.ok (some batch)) = .call .now (afterNow cfg b batch) := if_pos hpending
  have htimeout : afterNow cfg b batch (.ok s.world.clock) =
      .call (.statement (.updateStatus b .failed [])) (afterUpdate b) := if_pos hstale
  have hclock : exec q .calm s.world .now = some (.ok s.world.clock, s.world) := rfl
  have hupdate := exec_timeout_calm hfailed hnil hmem hfree
  have hcommit : exec q .calm { s.world with
      server := s.world.server.record q (.updateBatch b .failed []) } .commit =
      some (.ok (), timedOut s.world q b) := exec_commit_calm _ rfl hfailed hdepth
  have hrow := timedOut_batch (q := q) hnil hbatch
  have hreload : exec q .calm (timedOut s.world q b) (.batchGet b) =
      some (.ok (some { batch with status := .failed, errors := some [] }), timedOut s.world q b) := by
    refine (exec_batchGet_calm ?_ ?_).trans (by rw [hrow])
    · simp [timedOut, World.publish]
    · exact List.map_eq_nil_iff.mpr (Txn.Server.commit_own_self _ q)
  have hanswer : afterRefresh (.ok (some { batch with status := .failed, errors := some [] })) =
      .pure (.status ⟨b, .failed, []⟩) := by
    rw [afterRefresh, hid]
    rfl
  have hupdated : afterUpdate b (.ok ()) = .call .commit (afterTimeout b) := rfl
  have hcommitted : afterTimeout b (.ok ()) = .call (.batchGet b) afterRefresh := rfl
  -- put together, they are the run
  rw [calmCalls, follow_poll hproc hread hnow, follow_poll (set_procs_self q _ _) hclock htimeout,
    follow_poll (set_procs_self q _ _) hupdate hupdated,
    follow_poll (set_procs_self q _ _) hcommit hcommitted,
    follow_poll (set_procs_self q _ (timedOut s.world q b)) hreload hanswer]
  exact ⟨_, follow_cons (step_finish (set_procs_self q _ (timedOut s.world q b)) rfl) [],
    set_procs_self q _ _, hrow⟩

/-- A poll that nothing disturbs, after some time has passed. -/
def calmPoll (q : Pid) (b : BatchId) (n : ℕ) : List Label :=
  .tick n :: .arrive q (.getBatchStatus b) :: calmCalls q

/-- In every state that can be reached, a batch that is pending can be recovered: once it is older
than the timeout, a poll that nothing disturbs answers `failed` and commits it, if no open
transaction has updated the row. -/
theorem expired_batch_is_recovered {db : Db} {storage : ObjectKey → Option Bytes}
    (hruns : Runs cfg ok (initial db storage) s) (hbatch : s.world.db.batch b = some batch)
    (hpending : batch.status = .pending) {n : ℕ}
    (hstale : isStale cfg batch.createdAt (s.world.clock + n) = true) (hnew : s.procs q = none)
    (hfree : ∀ wr ∈ s.world.server.others q, wr.locks b = false) :
    ∃ s', s.follow cfg (fun _ _ => true) (calmPoll q b n) = some s' ∧
      s'.procs q = some ⟨.getBatchStatus b, .returned (.status ⟨b, .failed, []⟩)⟩ ∧
      s'.world.db.batch b = some { batch with status := .failed, errors := some [] } := by
  have htidy := ((kept_initial db storage).runs hruns).orderly.tidy
  let s₁ : Service := { s with world := { s.world with clock := s.world.clock + n } }
  let s₂ : Service := { s₁.start cfg q (.getBatchStatus b) with
    issued := (Request.getBatchStatus b).fresh ++ s₁.issued }
  have harrive : s₁.step cfg (.arrive q (.getBatchStatus b)) = some s₂ := by
    rw [step, if_pos ⟨rfl, by simp [s₁, hnew], List.forall_mem_nil _⟩]
  have hproc : s₂.procs q = some ⟨.getBatchStatus b, .running (.call (.batchGet b)
      (afterRead cfg b))⟩ := by
    rw [← program_getBatchStatus]
    exact set_procs_self q _ _
  have hfresh := session_of_none hruns hnew
  have hnil : s.world.server.writes q = [] := List.map_eq_nil_iff.mpr (htidy.own_of_none hnew)
  rw [calmPoll, follow_cons (show s.step cfg (.tick n) = some s₁ from rfl), follow_cons harrive]
  exact follow_calmCalls hproc hfresh hnil hbatch hpending hstale hfree

theorem expired_batch_is_recovered_sample :
    ∃ s s', (initial ⟨[], [], [], []⟩ fun _ => none).follow ⟨"hiring", 2, 600⟩ (fun _ _ => true)
        abandonedUpload = some s ∧
      s.follow ⟨"hiring", 2, 600⟩ (fun _ _ => true) (calmPoll 1 8 600000001) = some s' ∧
      s'.procs 1 = some ⟨.getBatchStatus 8, .returned (.status ⟨8, .failed, []⟩)⟩ ∧
      s'.world.db.batch 8 = some ⟨8, .failed, some [], 0⟩ := by
  have hend : ((initial ⟨[], [], [], []⟩ fun _ => none).follow ⟨"hiring", 2, 600⟩ (fun _ _ => true)
      abandonedUpload).map (fun s => (s.world.db.batch 8, s.world.clock, (s.procs 1).isNone,
        s.world.server.others 1)) = some (some ⟨8, .pending, none, 0⟩, 0, true, []) := by
    decide +kernel
  obtain ⟨s, hs, hfacts⟩ := Option.map_eq_some_iff.mp hend
  simp only [Prod.mk.injEq, Option.isNone_iff_eq_none] at hfacts
  obtain ⟨hbatch, hclock, hnew, hothers⟩ := hfacts
  have hruns : Runs ⟨"hiring", 2, 600⟩ (fun _ _ => True) (initial ⟨[], [], [], []⟩ fun _ => none) s :=
    runs_of_test (fun _ _ _ => trivial) hs
  have hstale : isStale ⟨"hiring", 2, 600⟩ 0 (s.world.clock + 600000001) = true := by
    rw [hclock]
    decide
  obtain ⟨s', hs', hproc, hrow⟩ := expired_batch_is_recovered hruns hbatch rfl hstale hnew
    (by rw [hothers]; exact List.forall_mem_nil _)
  exact ⟨s, s', hs, hs', hproc, hrow⟩

end Recovery

end Service

end HiringService
