import HiringService.Service.Batch

/-!
# When the terminal record of a batch is final

The worker and the polls update the row of a batch by its id, without comparing it with what they
have read. A poll that has read `pending` may therefore replace a completed batch, and a worker may
complete a batch that a poll has reported as failed. Neither happens in a run in which the timeout
only reaches batches that nobody works on (`Undisputed`).
-/

namespace HiringService

open Effect (Program)

/-! ## What a batch says -/

/-- What `db` says of a batch that is completed or failed, `db'` says as well. -/
def Db.Kept (b : BatchId) (db db' : Db) : Prop :=
  ∀ batch, db.batch b = some batch → batch.status ≠ .pending → ∃ batch', db'.batch b = some batch' ∧
    batch'.status = batch.status ∧ batch'.errors = batch.errors

/-- A failed batch has no errors. -/
def Db.Clean (b : BatchId) (db : Db) : Prop :=
  ∀ batch, db.batch b = some batch → batch.status = .failed → batch.errors = some []

section Db

variable {b : BatchId} {db db' db'' : Db} {ws : List Write}

/-- A batch that does not change is kept. -/
theorem kept_of_batch_eq (h : db'.batch b = db.batch b) : Db.Kept b db db' :=
  fun batch hbatch _ => ⟨batch, h.trans hbatch, rfl, rfl⟩

/-- Nothing has to be kept of a batch that is pending. -/
theorem kept_of_pending (h : db.InPhase (· = .pending) b) : Db.Kept b db db' := by
  intro batch hbatch hterminal
  obtain ⟨batch', hbatch', hpending⟩ := h
  obtain rfl := Option.some.inj (hbatch.symm.trans hbatch')
  exact absurd hpending hterminal

/-- What is kept twice is kept. -/
theorem Db.Kept.trans (h : Db.Kept b db db') (h' : Db.Kept b db' db'') : Db.Kept b db db'' := by
  intro batch hbatch hterminal
  obtain ⟨batch', hbatch', hstatus, herrors⟩ := h batch hbatch hterminal
  obtain ⟨batch'', hbatch'', hstatus', herrors'⟩ := h' batch' hbatch' (hstatus ▸ hterminal)
  exact ⟨batch'', hbatch'', hstatus'.trans hstatus, herrors'.trans herrors⟩

/-- Clean only depends on the batch. -/
theorem Db.Clean.of_batch_eq (h : db.Clean b) (heq : db'.batch b = db.batch b) : db'.Clean b :=
  fun batch hbatch => h batch (heq ▸ hbatch)

/-- A timeout leaves no errors. -/
theorem clean_updateBatch_failed : (db.apply (.updateBatch b .failed [])).Clean b := by
  intro batch hbatch _
  rw [apply_updateBatch_batch_self] at hbatch
  obtain ⟨before, -, rfl⟩ := Option.map_eq_some_iff.mp hbatch
  rfl

/-- Timeouts keep a batch clean. -/
theorem Db.Clean.foldl (h : db.Clean b)
    (hws : ∀ wr ∈ ws, wr.Avoids b ∨ wr = .updateBatch b .failed []) :
    Db.Clean b (ws.foldl Db.apply db) := by
  induction ws generalizing db with
  | nil => exact h
  | cons wr ws ih =>
      refine ih ?_ fun wr' h' => hws wr' (List.mem_cons_of_mem wr h')
      rcases hws wr List.mem_cons_self with havoids | rfl
      · exact h.of_batch_eq (batch_apply_of_avoids havoids)
      · exact clean_updateBatch_failed

/-- Timing out a batch that is not completed changes no terminal record. -/
theorem Db.Clean.kept_foldl (h : db.Clean b)
    (hopen : ∀ batch, db.batch b = some batch → batch.status ≠ .completed)
    (hws : ∀ wr ∈ ws, wr.Avoids b ∨ wr = .updateBatch b .failed []) :
    Db.Kept b db (ws.foldl Db.apply db) := by
  intro batch hbatch hterminal
  have hfailed : batch.status = .failed := by
    rcases hstatus : batch.status with _ | _ | _
    · exact absurd hstatus hterminal
    · exact absurd hstatus (hopen batch hbatch)
    · rfl
  have hspares : ∀ wr ∈ ws, wr.Spares (· = .failed) b := by
    intro wr hwr
    rcases hws wr hwr with havoids | rfl
    · exact havoids.spares _
    · exact fun _ => rfl
  obtain ⟨batch', hbatch', hfailed'⟩ := Db.InPhase.foldl ⟨batch, hbatch, hfailed⟩ hspares
  refine ⟨batch', hbatch', hfailed'.trans hfailed.symm, ?_⟩
  rw [h batch hbatch hfailed, h.foldl hws batch' hbatch' hfailed']

end Db

/-! ## Neighbours that leave the batch to its worker -/

/-- The choices that do not raise after the fact: no commit is lost, and the cache swallows its
exceptions. -/
def Dependable (c : Choice) (op : Op) : Prop :=
  (op = .commit → ∀ f, c.fault = some f → f.exn.isOperational = true → f.effective = false) ∧
    ∀ keys, op = .cacheDelete keys → c.fault = none

/-- Dependable choices are reliable ones. -/
theorem reliable_dependable : Reliable Dependable where
  commit _ f hc hf := hc.1 rfl f hf
  cacheDelete _ keys hc := hc.2 keys rfl

/-- The neighbours of a batch that nobody else updates while it is worked on. -/
def stewards (cfg : Settings) (b : BatchId) : Neighbours where
  allowed wr := wr.Avoids b
  frozen key := key = employeesKey cfg b
  guar w w' := Db.Kept b w.db w'.db ∧ (w.db.Clean b → w'.db.Clean b)
  may := Dependable

section

variable {cfg : Settings} {b : BatchId} {file : Bytes}

/-- A step that leaves the batch alone is accepted by its stewards. -/
theorem stewards_guar_of_batch_eq {w w' : World} (h : w'.db.batch b = w.db.batch b) :
    (stewards cfg b).guar w w' :=
  ⟨kept_of_batch_eq h, fun hclean => hclean.of_batch_eq h⟩

/-- Among stewards a worker accounts for its file. -/
theorem stewards_host : (stewards cfg b).Host (· = .pending) (fun _ => False) b
    cfg.employeeChunkSize (some file) [] where
  spares _ h := h.spares _
  guar _ h := stewards_guar_of_batch_eq h
  spares' _ h := h.spares _
  fails _ h := h.spares _
  complete hpending haccounted := by
    refine ⟨kept_of_pending hpending, fun _ batch hbatch hfailed => ?_⟩
    obtain ⟨_, _, _, _, _, -, -, -, -, hrecorded⟩ := haccounted
    obtain ⟨hcompleted, -⟩ := (hrecorded.status batch hbatch).resolve_left fun h => h
    rw [hcompleted] at hfailed
    cases hfailed
  fail haborted hdb := by
    rcases haborted with hpending | ⟨hreliable, -⟩
    · refine ⟨kept_of_pending hpending, fun _ => ?_⟩
      rw [hdb]
      exact clean_updateBatch_failed
    · exact absurd reliable_dependable hreliable
  same _ hdb := stewards_guar_of_batch_eq (by rw [hdb])

/-- Among stewards an upload opens its batch. -/
theorem stewards_cradle : (stewards cfg b).Cradle cfg (· = .pending) (fun _ => False) b file where
  founding :=
    { toSpare := (@stewards_host cfg b file).toSpare
      vacant := fun _ h => Or.inl h
      idle := fun _ hdb => stewards_guar_of_batch_eq (by rw [hdb])
      found := fun hvacant hdb => by
        refine ⟨fun batch hbatch => ?_, fun _ batch hbatch hfailed => ?_⟩
        · rw [hvacant.batch_eq_none] at hbatch
          cases hbatch
        · rw [hdb] at hbatch
          obtain ⟨batch', hbatch', hpending⟩ :=
            (@written_insertBatch (· = .pending) b rfl _ hvacant _).inPhase
          obtain rfl := Option.some.inj (hbatch.symm.trans hbatch')
          rw [show batch.status = .pending from hpending] at hfailed
          cases hfailed
      pending := rfl }
  host := stewards_host
  avoids _ h := h
  frozen _ := Iff.rfl

end

namespace Service

variable {cfg : Settings} {s s' : Service} {l : Label} {b : BatchId} {file : Bytes}

/-- Somebody still works on the batch: its upload or its worker is running. -/
def WorkedOn (b : BatchId) (s : Service) : Prop :=
  ∃ q request rest, s.procs q = some ⟨request, .running rest⟩ ∧ request.Owns b

/-- The step does not time out a batch that is completed or still worked on, and no commit or
deletion of the upload or the worker raises after the fact. -/
structure Undisputed (b : BatchId) (s : Service) (l : Label) : Prop where
  timeout : ∀ q, s.Publishes l q (.getBatchStatus b) → ¬ s.WorkedOn b ∧
    ∀ batch, s.world.db.batch b = some batch → batch.status ≠ .completed
  dependable : ∀ q c request op k, l = .call q c →
    s.procs q = some ⟨request, .running (.call op k)⟩ → request.Owns b → Dependable c op

/-- The pact of a batch that nobody else updates while it is worked on. -/
abbrev stewardship (cfg : Settings) (b : BatchId) (file : Bytes) : Pact :=
  Pact.ofBatch cfg (stewards cfg b) (· = .pending) b file

/-- An undisputed step keeps to the pact of the stewards. -/
theorem Undisputed.faithful (h : Undisputed b s l) : Faithful (stewardship cfg b file) s l :=
  fun hlabel hproc hconcerns => h.dependable _ _ _ _ _ hlabel hproc (owns_of_concerns hconcerns)

/-- What an undisputed step does to a batch that has been uploaded. -/
theorem Orderly.undisputed_step (h : s.Orderly cfg) (hE : s.Engaged (stewardship cfg b file))
    (hok : Undisputed b s l) (hstep : s.step cfg l = some s') {p : Pid} {status : Status}
    (hupload : s.procs p = some ⟨.ingestEmployees b file, status⟩) (hclean : s.world.db.Clean b) :
    Db.Kept b s.world.db s'.world.db ∧ s'.world.db.Clean b := by
  rcases h.batch_step hE hstep hok.faithful hupload with ⟨hkept, hclean'⟩ |
    ⟨ws, hdb, havoids | ⟨⟨q, hpublishes⟩, hws⟩⟩
  · exact ⟨hkept, hclean' hclean⟩
  · have hsame : s'.world.db.batch b = s.world.db.batch b := by
      rw [hdb]
      exact batch_foldl_of_avoids havoids
    exact ⟨kept_of_batch_eq hsame, hclean.of_batch_eq hsame⟩
  · rw [hdb]
    exact ⟨hclean.kept_foldl (hok.timeout q hpublishes).2 hws, hclean.foldl hws⟩

/-- In an undisputed run the upload and the worker of a batch have their contracts. -/
theorem engaged_of_undisputed (horderly : s.Orderly cfg)
    (hI : ∀ {p status}, s.procs p = some ⟨.ingestEmployees b file, status⟩ →
      s.Engaged (stewardship cfg b file) ∧ s.world.db.Clean b)
    (hok : Undisputed b s l) (hstep : s.step cfg l = some s') {p : Pid} {status : Status}
    (hupload : s'.procs p = some ⟨.ingestEmployees b file, status⟩) :
    s'.Engaged (stewardship cfg b file) ∧ s'.world.db.Clean b := by
  have hpoll : ∀ {q request rest}, s.procs q = some ⟨request, .running rest⟩ → request.Owns b →
      ∀ p, s.Publishes l p (.getBatchStatus b) → (stewards cfg b).allowed (.updateBatch b .failed []) :=
    fun hproc howns p hpublishes => absurd ⟨_, _, _, hproc, howns⟩ (hok.timeout p hpublishes).1
  have hcreated := (move_of_step hstep).creator_before hupload List.mem_cons_self
  rcases hcreated with ⟨status₀, hbefore⟩ | hnew
  · obtain ⟨hE, hclean⟩ := hI hbefore
    exact ⟨horderly.engaged_step stewards_cradle hE hstep hok.faithful hpoll hupload,
      (horderly.undisputed_step hE hok hstep hbefore hclean).2⟩
  · refine ⟨horderly.engaged_step stewards_cradle (horderly.engaged_of_not_issued hnew) hstep
      hok.faithful hpoll hupload, fun batch hbatch => ?_⟩
    have hvacant := horderly.registered.vacant_step horderly.tidy (move_of_step hstep) hnew
    rw [hvacant.batch_eq_none] at hbatch
    cases hbatch

/-- In an undisputed run, once a batch is completed or failed its status and its errors never change
again. -/
theorem terminal_record_is_final {db : Db} {storage : ObjectKey → Option Bytes}
    (hruns : Runs cfg (Undisputed b) (initial db storage) s) (hruns' : Runs cfg (Undisputed b) s s')
    {p : Pid} {status : Status} (hupload : s.procs p = some ⟨.ingestEmployees b file, status⟩)
    {batch : IngestionBatch} (hbatch : s.world.db.batch b = some batch)
    (hterminal : batch.status ≠ .pending) :
    ∃ batch', s'.world.db.batch b = some batch' ∧ batch'.status = batch.status ∧
      batch'.errors = batch.errors := by
  have hreached := (orderly_initial db storage).run_invariant
    (I := fun s => ∀ {p status}, s.procs p = some ⟨.ingestEmployees b file, status⟩ →
      s.Engaged (stewardship cfg b file) ∧ s.world.db.Clean b)
    (fun horderly hI hok hstep => engaged_of_undisputed horderly hI hok hstep) nofun hruns
  obtain ⟨horderly, hI⟩ := hreached
  have hrun := horderly.run_invariant
    (I := fun t => (∃ status, t.procs p = some ⟨.ingestEmployees b file, status⟩) ∧
      (∀ {p status}, t.procs p = some ⟨.ingestEmployees b file, status⟩ →
        t.Engaged (stewardship cfg b file) ∧ t.world.db.Clean b) ∧
      Db.Kept b s.world.db t.world.db) ?_
    ⟨⟨status, hupload⟩, hI, kept_of_batch_eq rfl⟩ hruns'
  · exact hrun.2.2.2 batch hbatch hterminal
  rintro t t' l horderly ⟨⟨status₁, hupload₁⟩, hI, hkept⟩ hok hstep
  obtain ⟨⟨request, status₂⟩, hupload₂, rfl⟩ := ((move_of_step hstep).turn p).request hupload₁
  obtain ⟨hE, hclean⟩ := hI hupload₁
  exact ⟨⟨status₂, hupload₂⟩, fun hupload => engaged_of_undisputed horderly hI hok hstep hupload,
    hkept.trans (horderly.undisputed_step hE hok hstep hupload₁ hclean).1⟩

/-- A test for steps of the processes below 4 in which nothing raises, and a poll of the batch 8 makes
its calls while nobody works on that batch and it is not completed. -/
def abandonedStep (s : Service) : Label → Bool
  | .call q c => c.fault.isNone &&
      ((s.procs q).map Process.request ≠ some (.getBatchStatus 8) ||
        ((List.range 4).all fun p => match s.procs p with
          | some ⟨request, .running _⟩ => ¬ request.Owns 8
          | _ => true) &&
        (s.world.db.batch 8).all fun batch => batch.status ≠ .completed)
  | _ => true

/-- The computable condition of the sample implies the one of the theorem. -/
theorem undisputed_of_abandonedStep (s : Service) (l : Label) (hs : s.Below 4)
    (h : abandonedStep s l = true) : Undisputed 8 s l := by
  have hcalm : ∀ q c, l = .call q c → c.fault = none := by
    rintro q c rfl
    simp only [abandonedStep, Bool.and_eq_true, Option.isNone_iff_eq_none] at h
    exact h.1
  refine ⟨?_, ?_⟩
  · rintro q ⟨c, k, rfl, hproc⟩
    simp only [abandonedStep, hproc, Option.map_some, Bool.and_eq_true, Bool.or_eq_true,
      decide_eq_true_eq, ne_eq, not_true_eq_false, false_or] at h
    obtain ⟨-, hidle, hopen⟩ := h
    refine ⟨?_, fun batch hbatch => ?_⟩
    · rintro ⟨p, request, rest, hrunning, howns⟩
      have hp : p < 4 := by
        by_contra hle
        rw [hs p (Nat.le_of_not_lt hle)] at hrunning
        cases hrunning
      have hnot := List.all_eq_true.mp hidle p (List.mem_range.mpr hp)
      rw [hrunning] at hnot
      exact of_decide_eq_true hnot howns
    · rw [hbatch] at hopen
      exact of_decide_eq_true hopen
  · rintro q c request op k rfl hproc -
    refine ⟨fun _ f hf => ?_, fun _ _ => hcalm q c rfl⟩
    cases (hcalm q c rfl).symm.trans hf

/-- The worker of the batch is cut off after its first row, and 700 seconds later a poll times the
batch out. -/
def abandonedBatch : List Label :=
  clashingUpload ++ List.replicate 6 (.call 1 .calm) ++ [.cut 1, .tick 700000000] ++
    .arrive 2 (.getBatchStatus 8) :: List.replicate 4 (.call 2 .calm)

/-- After that poll has committed, it reads the batch again, and so does a second one. -/
def laterPolls : List Label :=
  [.call 2 .calm, .finish 2 3, .tick 700000000, .arrive 3 (.getBatchStatus 8), .call 3 .calm,
    .finish 3 2]

theorem terminal_record_is_final_sample :
    ∃ s s', (initial sampleDb fun _ => none).follow sampleSettings abandonedStep abandonedBatch =
        some s ∧
      s.follow sampleSettings abandonedStep laterPolls = some s' ∧
      ∃ batch', s'.world.db.batch 8 = some batch' ∧ batch'.status = .failed ∧
        batch'.errors = some [] := by
  have hend : (((initial sampleDb fun _ => none).follow sampleSettings abandonedStep
      abandonedBatch).bind fun s =>
        (s.follow sampleSettings abandonedStep laterPolls).map fun _ =>
          (s.world.db.batch 8, (s.procs 0).map Process.request)) =
      some (some ⟨8, .failed, some [], 0⟩, some (.ingestEmployees 8 clashingFile)) := by
    decide +kernel
  obtain ⟨s, hs, hend⟩ := Option.bind_eq_some_iff.mp hend
  obtain ⟨s', hs', hfacts⟩ := Option.map_eq_some_iff.mp hend
  obtain ⟨hbatch, hrequest⟩ := Prod.mk.inj hfacts
  obtain ⟨⟨_, status⟩, hproc, rfl⟩ := Option.map_eq_some_iff.mp hrequest
  have hpids : ∀ l ∈ abandonedBatch ++ laterPolls, ∀ q ∈ l.pids, q < 4 := by decide
  obtain ⟨hruns, hbelow⟩ := runs_of_follow undisputed_of_abandonedStep
    (fun hl hbelow hstep => hbelow.step (hpids _ (List.mem_append_left _ hl)) hstep)
    (fun _ _ => rfl) hs
  obtain ⟨hruns', -⟩ := runs_of_follow undisputed_of_abandonedStep
    (fun hl hbelow hstep => hbelow.step (hpids _ (List.mem_append_right _ hl)) hstep) hbelow hs'
  exact ⟨s, s', hs, hs', terminal_record_is_final hruns hruns' hproc hbatch nofun⟩

/-- A poll that has read `pending` replaces a batch that its worker has completed in the meantime,
and the entry of the rejected row is lost. -/
theorem poll_replaces_completed_batch :
    let start := initial sampleDb fun _ => none
    let any : Service → Label → Bool := fun _ _ => true
    let race := clashingUpload ++ [.arrive 2 (.getBatchStatus 8), .call 2 .calm, .tick 700000000,
      .call 2 .calm] ++ clashingWorker
    (start.follow sampleSettings any race).map (fun s => s.world.db.batch 8) =
        some (some ⟨8, .completed, some ["1:B"], 0⟩) ∧
      (start.follow sampleSettings any (race ++ [.call 2 .calm, .call 2 .calm])).map
        (fun s => s.world.db.batch 8) = some (some ⟨8, .failed, some [], 0⟩) ∧
      ¬ ∀ {s s' : Service} {p : Pid} {status : Status} {batch : IngestionBatch},
        Runs sampleSettings (fun _ _ => True) start s → Runs sampleSettings (fun _ _ => True) s s' →
        s.procs p = some ⟨.ingestEmployees 8 clashingFile, status⟩ →
        s.world.db.batch 8 = some batch → batch.status ≠ .pending →
        ∃ batch', s'.world.db.batch 8 = some batch' ∧ batch'.status = batch.status ∧
          batch'.errors = batch.errors := by
  intro start any race
  have hrace : ((start.follow sampleSettings any race).bind fun s =>
      (s.follow sampleSettings any [.call 2 .calm, .call 2 .calm]).map fun s' =>
        (s.world.db.batch 8, s'.world.db.batch 8, (s.procs 0).map Process.request)) =
      some (some ⟨8, .completed, some ["1:B"], 0⟩, some ⟨8, .failed, some [], 0⟩,
        some (.ingestEmployees 8 clashingFile)) := by
    decide +kernel
  refine ⟨by decide +kernel, by decide +kernel, fun hclaim => ?_⟩
  obtain ⟨s, hs, hend⟩ := Option.bind_eq_some_iff.mp hrace
  obtain ⟨s', hs', hfacts⟩ := Option.map_eq_some_iff.mp hend
  obtain ⟨hbatch, hfacts⟩ := Prod.mk.inj hfacts
  obtain ⟨hbatch', hrequest⟩ := Prod.mk.inj hfacts
  obtain ⟨⟨_, status⟩, hproc, rfl⟩ := Option.map_eq_some_iff.mp hrequest
  obtain ⟨batch', hread, hstatus, -⟩ := hclaim (runs_of_test (fun _ _ _ => trivial) hs)
    (runs_of_test (fun _ _ _ => trivial) hs') hproc hbatch nofun
  rw [hbatch'] at hread
  cases hread
  cases hstatus

end Service

end HiringService
