import HiringService.Sequential.Uploads
import HiringService.Sequential.Worker

/-!
# Ingesting a file twice

A second ingestion of a file right after the first finds every record rejected: what the first one
inserted conflicts now, and what it rejected stays rejected. Where the commit of the first one raised
`RecursionError`, nothing was inserted, and the second one raises it again.
-/

namespace HiringService

open Effect (Program)

/-! ## Departments and jobs -/

section Reference

variable {t : ReferenceTable} {batchId batchId' : BatchId} {db : Db} {now : ℕ}

/-- The database after an ingestion that accepted `accepted`. -/
abbrev Db.afterIngestion (db : Db) (t : ReferenceTable) (batchId : BatchId) (now : ℕ)
    (accepted : List ReferenceRecord) : Db :=
  if accepted = [] then db else db.published t batchId now accepted

theorem reference_afterIngestion (accepted : List ReferenceRecord) :
    (db.afterIngestion t batchId now accepted).reference t =
      db.reference t ++ accepted.map (ReferenceRecord.toRow batchId) := by
  by_cases hnone : accepted = []
  · simp [Db.afterIngestion, hnone]
  · rw [Db.afterIngestion, if_neg hnone]
    cases t <;> rfl

theorem batch_notMem_afterIngestion (hfresh : Key.batch batchId' ∉ db.keys)
    (hne : batchId ≠ batchId') (accepted : List ReferenceRecord) :
    Key.batch batchId' ∉ (db.afterIngestion t batchId now accepted).keys := by
  rw [mem_keys_batch] at hfresh ⊢
  by_cases hnone : accepted = []
  · rwa [Db.afterIngestion, if_pos hnone]
  · rw [Db.afterIngestion, if_neg hnone]
    cases t <;> simpa [Db.published, Db.appendReference, Ne.symm hne] using hfresh

/-- A pass over the records of the ingestion accepts nothing afterwards. -/
theorem insertAll_afterIngestion (t : ReferenceTable) (batchId batchId' : BatchId) (db : Db) (now : ℕ)
    (records : List ReferenceRecord) :
    let accepted := ((referenceTable t batchId).insertAll db records).accepted
    (referenceTable t batchId').insertAll (db.afterIngestion t batchId now accepted) records =
      ⟨db.afterIngestion t batchId now accepted, [], records⟩ := by
  intro accepted
  refine OnePass.Table.insertAll_of_forall_not_accepts fun r hr haccepts => ?_
  have hno : ¬ (referenceTable t batchId).accepts
      ((referenceTable t batchId).insertAll db records).state r :=
    referenceTable_monotone.not_accepts_after hr
  refine hno ⟨?_, haccepts.2⟩
  have hstate : ((referenceTable t batchId).insertAll db records).state.reference t =
      (db.afterIngestion t batchId now accepted).reference t := by
    rw [OnePass.Table.state_eq_foldl, referenceTable_foldl, reference_afterIngestion]
    cases t <;> rfl
  rw [hstate]
  exact haccepts.1

end Reference

/-! ## Employees -/

section Employees

variable {pid : Pid} {now : ℕ} {batchId batchId' : BatchId} {w : World} {db db' : Db}
  {cfg : Settings} {file : Bytes} {records : List EmployeeRecord} {parseErrors : List String}
  {limits : ℕ+ → Prop}

/-- The three data tables are the same. -/
structure Db.SameData (db db' : Db) : Prop where
  departments : db'.departments = db.departments
  jobs : db'.jobs = db.jobs
  employees : db'.employees = db.employees

theorem Db.SameData.trans {db₁ db₂ db₃ : Db} (h₁₂ : db₁.SameData db₂) (h₂₃ : db₂.SameData db₃) :
    db₁.SameData db₃ where
  departments := h₂₃.departments.trans h₁₂.departments
  jobs := h₂₃.jobs.trans h₁₂.jobs
  employees := h₂₃.employees.trans h₁₂.employees

/-- After a worker of another batch, a fresh batch id is still fresh. -/
theorem batch_notMem_afterPass {status : IngestionBatchStatus} {errors : List String}
    (hfresh : Key.batch batchId' ∉ db.keys) (hne : batchId ≠ batchId') :
    Key.batch batchId' ∉ ((((employeesTable batchId).insertAll (db.withBatch batchId now)
      records).state).apply (.updateBatch batchId status errors)).keys := by
  rw [(keys_apply _ _).mem_iff, Write.keys, List.append_nil, mem_keys_batch,
    insertAll_employees_batches, ← mem_keys_batch, (keys_apply _ _).mem_iff, List.mem_append]
  rintro (hmem | hmem)
  · exact hfresh hmem
  · exact hne (Key.batch.inj (List.mem_singleton.mp hmem)).symm

/-- The rows that a pass leaves belong to its batch or were there before. -/
theorem batchId_ne_of_mem_pass (hrefers : ∀ e ∈ db.employees, Key.batch e.batchId ∈ db.keys)
    (hfresh : Key.batch batchId' ∉ db.keys) (hne : batchId ≠ batchId') {e : EmployeeRow}
    (he : e ∈ ((employeesTable batchId).insertAll (db.withBatch batchId now)
      records).state.employees) : e.batchId ≠ batchId' := by
  rw [OnePass.Table.state_eq_foldl, employeesTable_foldl] at he
  rcases List.mem_append.mp he with hold | hnew
  · rintro rfl
    exact hfresh (hrefers e hold)
  · obtain ⟨r, -, rfl⟩ := List.mem_map.mp hnew
    exact hne

/-- A pass over the records accepts nothing in a database with the data that a pass has left. -/
theorem insertAll_again (batchId' : BatchId)
    (h : ((employeesTable batchId).insertAll db records).state.SameData db') :
    (employeesTable batchId').insertAll db' records = ⟨db', [], records⟩ := by
  refine OnePass.Table.insertAll_of_forall_not_accepts fun r hr haccepts => ?_
  have hno : ¬ (employeesTable batchId).accepts
      ((employeesTable batchId).insertAll db records).state r :=
    employeesTable_monotone.not_accepts_after hr
  refine hno ?_
  show _ ∧ _ ∧ _ ∧ _
  rw [← h.employees, ← h.departments, ← h.jobs]
  exact haccepts

theorem calmly_ingestEmployees (hs : Solo pid now w db [] 0) (hfresh : Key.batch batchId ∉ db.keys) :
    Calmly limits pid (ingestEmployees cfg batchId file) w fun r w' =>
      r = .ok batchId ∧ Solo pid now w' (db.withBatch batchId now) [] 0 ∧
        w'.storage (employeesKey cfg batchId) = some file := by
  refine Calmly.bind (calmly_call fun c _ => ⟨_, _, rfl, ?_⟩)
  have hs₁ : Solo pid now { w with
      storage := Function.update w.storage (employeesKey cfg batchId) (some file) } db [] 0 :=
    ⟨⟨hs.clock, hs.committed, hs.pending⟩, hs.writes, hs.running, hs.depth⟩
  refine Calmly.bind (calmly_batchAdd hs₁ hfresh fun w₂ hs₂ hstorage₂ => ?_)
  refine Calmly.bind (calmly_commit_shallow hs₂ (Nat.zero_le 1) fun w₃ hs₃ hstorage₃ =>
    calmly_pure ⟨rfl, hs₃, ?_⟩)
  rw [hstorage₃, hstorage₂]
  exact Function.update_self _ _ _

/-- The worker leaves the data of a pass. -/
theorem calmly_streamAndProcess_data (hs : Solo pid now w db [] 0)
    (hbatch : Key.batch batchId ∈ db.keys)
    (hfile : w.storage (employeesKey cfg batchId) = some file)
    (hparse : parseEmployees file = .ok (records, parseErrors))
    (hsize : 0 < cfg.employeeChunkSize) :
    let pass := (employeesTable batchId).insertAll db records
    Calmly limits pid (streamAndProcess batchId cfg) w fun _ w' =>
      ∃ status errors, Solo pid now w' (pass.state.apply (.updateBatch batchId status errors)) [] 0 := by
  refine Calmly.mono (calmly_streamAndProcess hs hbatch hfile hparse hsize) ?_
  rintro r w' (⟨-, -, hs'⟩ | ⟨-, -, hs'⟩)
  · exact ⟨_, _, hs'⟩
  · exact ⟨_, _, hs'⟩

end Employees

/-! ## Both flows -/

/-- Of two uploads of a file, one right after the other, the second reports every record and commits
nothing, whatever the first one has answered. -/
def UploadedAgain (t : ReferenceTable) (pid : Pid) (batchId batchId' : BatchId) (w : World)
    (sched : ℕ → ℕ → Choice) (file : Bytes) (records : List ReferenceRecord)
    (parseErrors : List String) : Prop :=
  ∃ r₁ left₁ w₁ left₂ w₂,
    (upload t batchId file).run (machine pid) (sched 0) w = some (r₁, left₁, w₁) ∧
    (upload t batchId' file).run (machine pid) (sched 1) (w₁.close pid) =
      some (.ok ⟨0, records.map ReferenceRecord.entry ++ parseErrors⟩, left₂, w₂) ∧
    w₂.db = w₁.db

/-- Uploading a file of departments or jobs a second time. -/
theorem uploadedAgain_iff {t : ReferenceTable} {pid : Pid} {batchId batchId' : BatchId} {w : World}
    {file : Bytes} {records : List ReferenceRecord} {parseErrors : List String} {limit : ℕ+}
    {sched : ℕ → ℕ → Choice} (hquiet : w.Quiet pid) (hkey : Key.batch batchId ∉ w.db.keys)
    (hkey' : Key.batch batchId' ∉ w.db.keys) (hne : batchId ≠ batchId')
    (hsched : ∀ i n, (sched i n).fault = none ∧ (sched i n).nested = limit)
    (hparse : parseReference t file = .ok (records, parseErrors))
    (hvalid : records ≠ [] ∧ records.length ≤ maxRows) :
    UploadedAgain t pid batchId batchId' w sched file records parseErrors ↔
      CanCommit limit ((referenceTable t batchId).insertAll w.db records) := by
  obtain ⟨r₁, m, w₁, hrun₁, ⟨hcan, rfl, hs₁⟩ | ⟨hcan, rfl, hs₁⟩⟩ :=
    (calmly_upload hquiet.solo hkey hparse hvalid).run (hsched 0)
  · -- the first upload has committed what the pass accepts
    refine iff_of_true ?_ hcan
    obtain ⟨hquiet₁, hdb₁⟩ := hs₁.close
    have hkey₁ : Key.batch batchId' ∉ (w₁.close pid).db.keys := by
      rw [hdb₁]
      exact batch_notMem_afterIngestion hkey' hne _
    have hagain := insertAll_afterIngestion t batchId batchId' w.db w.clock records
    obtain ⟨r₂, m', w₂, hrun₂, ⟨-, rfl, hs₂⟩ | ⟨hcan', -⟩⟩ :=
      (calmly_upload hquiet₁.solo hkey₁ hparse hvalid).run (hsched 1)
    · have hdb₂ : w₂.db = _ := hs₂.committed
      rw [hdb₁, hagain] at hrun₂ hdb₂
      refine ⟨_, _, w₁, _, w₂, hrun₁, hrun₂, ?_⟩
      rw [hdb₂, if_pos rfl]
      exact hs₁.committed.symm
    · rw [hdb₁, hagain] at hcan'
      exact absurd (Or.inr (Nat.zero_le _)) hcan'
  · -- the first upload has left the database, so the second one fails in the same way
    refine iff_of_false ?_ hcan
    obtain ⟨hquiet₁, hdb₁⟩ := hs₁.close
    have hkey₁ : Key.batch batchId' ∉ (w₁.close pid).db.keys := by
      rw [hdb₁]
      exact hkey'
    obtain ⟨haccepted, hrejected⟩ :=
      @insertAll_reference_congr t w.db batchId batchId' records _ rfl
    rintro ⟨r₁', _, w₁', left₂, w₂', hrun₁', hrun₂', -⟩
    obtain ⟨rfl, hrest⟩ := Prod.mk.inj (Option.some.inj (hrun₁.symm.trans hrun₁'))
    obtain ⟨-, rfl⟩ := Prod.mk.inj hrest
    obtain ⟨r₂, m', w₂, hrun₂, ⟨hcan', -⟩ | ⟨-, rfl, -⟩⟩ :=
      (calmly_upload hquiet₁.solo hkey₁ hparse hvalid).run (hsched 1)
    · rw [CanCommit, hdb₁, ← haccepted, ← hrejected] at hcan'
      exact hcan hcan'
    · have hsame := congrArg (Option.map Prod.fst) (hrun₂.symm.trans hrun₂')
      cases Option.some.inj hsame

/-- Uploading and processing a file of employees a second time. -/
theorem ingestEmployees_again {pid : Pid} {batchId batchId' : BatchId} {w : World} {cfg : Settings}
    {file : Bytes} {records : List EmployeeRecord} {parseErrors : List String}
    {limits : ℕ+ → Prop} {sched : ℕ → ℕ → Choice} (hquiet : w.Quiet pid)
    (hkey : Key.batch batchId ∉ w.db.keys) (hkey' : Key.batch batchId' ∉ w.db.keys)
    (hne : batchId ≠ batchId') (hrefers : ∀ e ∈ w.db.employees, Key.batch e.batchId ∈ w.db.keys)
    (hsize : 1 ≤ cfg.employeeChunkSize)
    (hsched : ∀ i n, (sched i n).fault = none ∧ limits (sched i n).nested)
    (hparse : parseEmployees file = .ok (records, parseErrors)) :
    ∃ left₁ w₁ r₂ left₂ w₂ left₃ w₃ left₄ w₄ r₅ left₅ w₅,
      (ingestEmployees cfg batchId file).run (machine pid) (sched 0) w =
        some (.ok batchId, left₁, w₁) ∧
      (streamAndProcess batchId cfg).run (machine pid) (sched 1) (w₁.close pid) =
        some (r₂, left₂, w₂) ∧
      (ingestEmployees cfg batchId' file).run (machine pid) (sched 2) (w₂.close pid) =
        some (.ok batchId', left₃, w₃) ∧
      (ingestFile batchId' cfg).run (machine pid) (sched 3) (w₃.close pid) =
        some (.ok (parseErrors ++ records.map EmployeeRecord.entry), left₄, w₄) ∧
      (streamAndProcess batchId' cfg).run (machine pid) (sched 3) (w₃.close pid) =
        some (r₅, left₅, w₅) ∧
      w₂.db.SameData w₄.db ∧ w₂.db.SameData w₅.db ∧
      ∀ e ∈ w₅.db.employees, e.batchId ≠ batchId' := by
  have hpos : 0 < cfg.employeeChunkSize := by omega
  -- the first ingestion
  obtain ⟨_, m₁, w₁, hrun₁, rfl, hs₁, hfile₁⟩ :=
    (calmly_ingestEmployees hquiet.solo hkey).run (hsched 0)
  obtain ⟨hquiet₁, hdb₁⟩ := hs₁.toHalted.close
  have hbatch₁ : Key.batch batchId ∈ (w₁.close pid).db.keys := by
    rw [hdb₁]
    exact batch_mem_withBatch
  obtain ⟨r₂, m₂, w₂, hrun₂, status₂, errors₂, hs₂⟩ :=
    (calmly_streamAndProcess_data hquiet₁.solo hbatch₁ hfile₁ hparse hpos).run (hsched 1)
  rw [hdb₁] at hs₂
  have hdata₂ : ((employeesTable batchId).insertAll (w.db.withBatch batchId w.clock)
      records).state.SameData w₂.db := by
    rw [show w₂.db = _ from hs₂.committed]
    exact ⟨rfl, rfl, rfl⟩
  -- the second ingestion
  obtain ⟨hquiet₂, hdb₂⟩ := hs₂.toHalted.close
  have hkey₂ : Key.batch batchId' ∉ (w₂.close pid).db.keys := by
    rw [hdb₂]
    exact batch_notMem_afterPass hkey' hne
  obtain ⟨_, m₃, w₃, hrun₃, rfl, hs₃, hfile₃⟩ :=
    (calmly_ingestEmployees hquiet₂.solo hkey₂).run (hsched 2)
  obtain ⟨hquiet₃, hdb₃⟩ := hs₃.toHalted.close
  have hbatch₃ : Key.batch batchId' ∈ (w₃.close pid).db.keys := by
    rw [hdb₃]
    exact batch_mem_withBatch
  have hdata₃ : w₂.db.SameData (w₃.close pid).db := by
    rw [hdb₃]
    exact ⟨rfl, rfl, rfl⟩
  have hagain := insertAll_again batchId' (hdata₂.trans hdata₃)
  obtain ⟨_, m₄, w₄, hrun₄, rfl, hs₄⟩ :=
    (calmly_ingestFile hquiet₃.solo hbatch₃ hfile₃ hparse hpos).run (hsched 3)
  obtain ⟨r₅, m₅, w₅, hrun₅, status₅, errors₅, hs₅⟩ :=
    (calmly_streamAndProcess_data hquiet₃.solo hbatch₃ hfile₃ hparse hpos).run (hsched 3)
  rw [hagain] at hrun₄ hs₄ hs₅
  have hdata₄ : w₂.db.SameData w₄.db := by
    rw [show w₄.db = _ from hs₄.committed]
    exact hdata₃
  have hdata₅ : w₂.db.SameData w₅.db := by
    rw [show w₅.db = _ from hs₅.committed]
    exact hdata₃.trans ⟨rfl, rfl, rfl⟩
  refine ⟨_, w₁, r₂, _, w₂, _, w₃, _, w₄, r₅, _, w₅, hrun₁, hrun₂, hrun₃, hrun₄, hrun₅, hdata₄,
    hdata₅, fun e he => ?_⟩
  rw [(hdata₂.trans hdata₅).employees] at he
  exact batchId_ne_of_mem_pass hrefers hkey' hne he

/-- Re-ingestion and the data. For employees, a second ingestion of the file reports every record and
leaves the three data tables as the first one left them, and the second batch owns no row. For
departments and jobs, a second upload reports every record and commits nothing if and only if the
first pass rejects no record, so that its bulk path goes through, or a commit can close a savepoint
for each record that it accepts. -/
theorem reingestion_idempotent_iff {pid : Pid} {batchId batchId' : BatchId} {w : World}
    {cfg : Settings} {limit : ℕ+} {sched : ℕ → ℕ → Choice} (hquiet : w.Quiet pid)
    (hfresh : batchId ∉ w.db.batches.map IngestionBatch.id)
    (hfresh' : batchId' ∉ w.db.batches.map IngestionBatch.id) (hne : batchId ≠ batchId')
    (hrefers : ∀ e ∈ w.db.employees, e.batchId ∈ w.db.batches.map IngestionBatch.id)
    (hsize : 1 ≤ cfg.employeeChunkSize)
    (hsched : ∀ i n, (sched i n).fault = none ∧ (sched i n).nested = limit) :
    (∀ t file records parseErrors, parseReference t file = .ok (records, parseErrors) →
      validateBatch records = .ok () →
      let pass := (referenceTable t batchId).insertAll w.db records
      (UploadedAgain t pid batchId batchId' w sched file records parseErrors ↔
        pass.rejected = [] ∨ pass.accepted.length ≤ limit)) ∧
    ∀ file records parseErrors, parseEmployees file = .ok (records, parseErrors) →
      ∃ left₁ w₁ r₂ left₂ w₂ left₃ w₃ left₄ w₄ r₅ left₅ w₅,
        (ingestEmployees cfg batchId file).run (machine pid) (sched 0) w =
          some (.ok batchId, left₁, w₁) ∧
        (streamAndProcess batchId cfg).run (machine pid) (sched 1) (w₁.close pid) =
          some (r₂, left₂, w₂) ∧
        (ingestEmployees cfg batchId' file).run (machine pid) (sched 2) (w₂.close pid) =
          some (.ok batchId', left₃, w₃) ∧
        (ingestFile batchId' cfg).run (machine pid) (sched 3) (w₃.close pid) =
          some (.ok (parseErrors ++ records.map EmployeeRecord.entry), left₄, w₄) ∧
        (streamAndProcess batchId' cfg).run (machine pid) (sched 3) (w₃.close pid) =
          some (r₅, left₅, w₅) ∧
        w₂.db.SameData w₄.db ∧ w₂.db.SameData w₅.db ∧
        ∀ e ∈ w₅.db.employees, e.batchId ≠ batchId' := by
  have hkey : Key.batch batchId ∉ w.db.keys := mt (mem_keys_batch w.db).mp hfresh
  have hkey' : Key.batch batchId' ∉ w.db.keys := mt (mem_keys_batch w.db).mp hfresh'
  constructor
  · intro t file records parseErrors hparse hvalidate
    exact uploadedAgain_iff hquiet hkey hkey' hne hsched hparse (valid_of_validateBatch hvalidate)
  · intro file records parseErrors hparse
    exact @ingestEmployees_again pid batchId batchId' w cfg file records parseErrors (· = limit) sched
      hquiet hkey hkey' hne (fun e he => (mem_keys_batch w.db).mpr (hrefers e he)) hsize hsched hparse

/-- A file of departments whose first upload takes the fallback, as 1 exists and 2 comes twice, and a
file of employees of which only the first one can be inserted. -/
theorem reingestion_idempotent_iff_sample :
    let w := World.initial sampleDb fun _ => none
    let calm : ℕ → ℕ → Choice := fun _ _ => Choice.calm
    let file : Bytes := [49, 44, 65, 10, 50, 44, 66, 10, 50, 44, 67, 10, 52]
    let records : List ReferenceRecord := [⟨1, "A"⟩, ⟨2, "B"⟩, ⟨2, "C"⟩]
    let pass := (referenceTable .departments 8).insertAll w.db records
    (UploadedAgain .departments 0 8 9 w calm file records ["row 4: invalid"] ↔
      pass.rejected = [] ∨ pass.accepted.length ≤ (333 : ℕ+)) ∧
    ∃ left₁ w₁ r₂ left₂ w₂ left₃ w₃ left₄ w₄ r₅ left₅ w₅,
      (ingestEmployees sampleSettings 8 clashingFile).run (machine 0) (calm 0) w =
        some (.ok 8, left₁, w₁) ∧
      (streamAndProcess 8 sampleSettings).run (machine 0) (calm 1) (w₁.close 0) =
        some (r₂, left₂, w₂) ∧
      (ingestEmployees sampleSettings 9 clashingFile).run (machine 0) (calm 2) (w₂.close 0) =
        some (.ok 9, left₃, w₃) ∧
      (ingestFile 9 sampleSettings).run (machine 0) (calm 3) (w₃.close 0) =
        some (.ok ["1:A", "1:B"], left₄, w₄) ∧
      (streamAndProcess 9 sampleSettings).run (machine 0) (calm 3) (w₃.close 0) =
        some (r₅, left₅, w₅) ∧
      w₂.db.SameData w₄.db ∧ w₂.db.SameData w₅.db ∧ ∀ e ∈ w₅.db.employees, e.batchId ≠ 9 := by
  intro w calm file records pass
  have hboth := @reingestion_idempotent_iff 0 8 9 w sampleSettings 333 calm ⟨rfl, rfl, rfl⟩
    (by decide) (by decide) (by decide) (by decide) (by decide) fun _ _ => ⟨rfl, rfl⟩
  exact ⟨hboth.1 .departments file records ["row 4: invalid"] rfl rfl, hboth.2 clashingFile
    [⟨1, "A", ⟨1609459200000000, none⟩, 1, 1⟩, ⟨1, "B", ⟨1609459200000000, none⟩, 1, 1⟩] [] rfl⟩

/-- The second upload of the departments 1 to 340 raises `RecursionError` as the first one did. -/
theorem reupload_raises_again :
    let w := World.initial sampleDb fun _ => none
    let calm : ℕ → ℕ → Choice := fun _ _ => Choice.calm
    (∃ left₁ w₁ left₂ w₂,
      (upload .departments 8 (departmentsFile 340)).run (machine 0) (calm 0) w =
        some (.error .recursion, left₁, w₁) ∧
      (upload .departments 9 (departmentsFile 340)).run (machine 0) (calm 1) (w₁.close 0) =
        some (.error .recursion, left₂, w₂)) ∧
      ¬ UploadedAgain .departments 0 8 9 w calm (departmentsFile 340) (departmentsFrom 1 340) [] := by
  intro w calm
  have hlimit : ((333 : ℕ+) : ℕ) < 339 := by decide
  obtain ⟨m₁, w₁, hrun₁, hs₁⟩ := @upload_departmentsFile 339 8 333 hlimit (by decide) 0 w
    ⟨rfl, rfl, rfl⟩ rfl (by decide) (calm 0) fun _ => ⟨rfl, rfl⟩
  obtain ⟨hquiet₁, hdb₁⟩ := hs₁.close
  obtain ⟨m₂, w₂, hrun₂, -⟩ := @upload_departmentsFile 339 9 333 hlimit (by decide) 0 (w₁.close 0)
    hquiet₁ hdb₁ (by decide) (calm 1) fun _ => ⟨rfl, rfl⟩
  refine ⟨⟨_, w₁, _, w₂, hrun₁, hrun₂⟩, ?_⟩
  rintro ⟨r₁', _, w₁', left₂, w₂', hrun₁', hrun₂', -⟩
  obtain ⟨-, hrest⟩ := Prod.mk.inj (Option.some.inj (hrun₁.symm.trans hrun₁'))
  obtain ⟨-, rfl⟩ := Prod.mk.inj hrest
  have hsame := congrArg (Option.map Prod.fst) (hrun₂.symm.trans hrun₂')
  cases Option.some.inj hsame

end HiringService
