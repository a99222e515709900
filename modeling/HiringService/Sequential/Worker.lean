import HiringService.Frame
import HiringService.Sequential.Employees

/-!
# The worker without outages

Undisturbed, the worker of a batch writes the rows of one pass over the parsed records and then
records the errors of the file. That last step copies the names of rejected records into a `jsonb`
column, which stores a text exactly when `varchar` does: a name that was rejected for U+0000 is
rejected once more there, outside any `try` for single rows, and the batch fails.
-/

namespace HiringService

open Effect (Program)

/-! ## Error entries as stored texts -/

theorem nul_notMem_toString_nat (n : ℕ) : '\x00' ∉ (toString n).toList := by
  intro h
  rw [Nat.toString_eq_ofList_toDigits, String.toList_ofList] at h
  have hdigit := Nat.isDigit_of_mem_toDigits (by decide) (by decide) h
  exact absurd hdigit (by decide)

theorem nul_notMem_toString_int (n : ℤ) : '\x00' ∉ (toString n).toList := by
  cases n with
  | ofNat m => exact nul_notMem_toString_nat m
  | negSucc m =>
      intro h
      have hcases : '\x00' ∈ ("-" ++ toString (m + 1)).toList := h
      rw [String.toList_append] at hcases
      rcases List.mem_append.mp hcases with hsign | hdigits
      · exact absurd hsign (by decide)
      · exact nul_notMem_toString_nat _ hdigits

/-- The entry of a record can be stored exactly when its name can. -/
theorem storableText_idName (id : ℤ) (name : String) :
    storableText (idName id name) ↔ storableText name := by
  unfold storableText idName
  rw [String.toList_append, String.toList_append, List.mem_append, List.mem_append]
  constructor
  · exact fun h hname => h (Or.inr hname)
  · rintro h ((hid | hcolon) | hname)
    · exact nul_notMem_toString_int id hid
    · exact absurd hcolon (by decide)
    · exact h hname

/-- The entry of a row that is no record can always be stored. -/
theorem storableText_rowError (i : ℕ) : storableText (rowError i) := by
  unfold storableText rowError
  rw [String.toList_append, String.toList_append, List.mem_append, List.mem_append]
  rintro ((hrow | hi) | hinvalid)
  · exact absurd hrow (by decide)
  · exact nul_notMem_toString_nat i hi
  · exact absurd hinvalid (by decide)

/-- The errors of a file can be stored exactly when no parsed name contains U+0000. -/
theorem storable_errors_iff {raw : Bytes} {records : List EmployeeRecord}
    {parseErrors : List String} (hparse : parseEmployees raw = .ok (records, parseErrors))
    (batchId : BatchId) (db : Db) :
    (∀ e ∈ parseErrors ++ ((employeesTable batchId).insertAll db records).rejected.map
      EmployeeRecord.entry, storableText e) ↔ ∀ r ∈ records, storableText r.name := by
  constructor
  · intro h r hr
    have haccepts : ∀ s r, (employeesTable batchId).accepts s r → storableText r.name :=
      fun _ _ haccepts => haccepts.2.2.2.2.1
    rcases OnePass.Table.mem_iff_mem_accepted_or_mem_rejected.mp hr with haccepted | hrejected
    · exact OnePass.Table.forall_mem_accepted haccepts r haccepted
    · have hentry := h r.entry (List.mem_append_right _ (List.mem_map_of_mem hrejected))
      exact (storableText_idName _ _).mp hentry
  · intro h e he
    rcases List.mem_append.mp he with he | he
    · obtain ⟨i, rfl⟩ := mem_parseFile_errors hparse he
      exact storableText_rowError i
    · obtain ⟨r, hr, rfl⟩ := List.mem_map.mp he
      have hmem := OnePass.Table.mem_iff_mem_accepted_or_mem_rejected.mpr (Or.inr hr)
      exact (storableText_idName _ _).mpr (h r hmem)

/-! ## The calls of the worker -/

section Worker

variable {limits : ℕ+ → Prop} {pid : Pid} {now : ℕ} {batchId : BatchId} {w : World} {db : Db}
  {cfg : Settings}

/-- However the file is cut, the download returns its bytes. -/
theorem calmly_downloadFile {key : ObjectKey} {file : Bytes} (hfile : w.storage key = some file)
    {Q : Except Exn Bytes → World → Prop} (hQ : Q (.ok file) w) :
    Calmly limits pid (downloadFile key) w Q := by
  refine Calmly.bind (calmly_call fun c _ => ⟨_, _, by simp only [attempt, hfile]; exact rfl, ?_⟩)
  refine calmly_pure ?_
  rwa [flatten_cutFile]

theorem calmly_ingestFile (hs : Solo pid now w db [] 0) (hbatch : Key.batch batchId ∈ db.keys)
    {file : Bytes} (hfile : w.storage (employeesKey cfg batchId) = some file)
    {records : List EmployeeRecord} {parseErrors : List String}
    (hparse : parseEmployees file = .ok (records, parseErrors))
    (hsize : 0 < cfg.employeeChunkSize) :
    Calmly limits pid (ingestFile batchId cfg) w
      (Passed pid now batchId db records parseErrors) := by
  refine Calmly.bind (calmly_downloadFile hfile ?_)
  refine Calmly.bind (calmly_lift_ok hparse ?_)
  exact calmly_writeRecords hs hbatch hsize parseErrors records

theorem calmly_markBatchFailed (hs : Halted pid now w db) (hbatch : Key.batch batchId ∈ db.keys) :
    Calmly limits pid (markBatchFailed batchId) w fun r w' =>
      r = .ok () ∧ Solo pid now w' (db.apply (.updateBatch batchId .failed [])) [] 0 := by
  refine Calmly.tryExcept (Calmly.bind (calmly_rollback hs fun w₁ hs₁ => ?_))
  refine Calmly.bind (calmly_updateStatus hs₁ hbatch ?_ ?_)
  · intro _ w₂ hs₂
    exact calmly_commit_shallow hs₂ (Nat.zero_le 1) fun w₃ hs₃ _ => ⟨rfl, hs₃⟩
  · intro hstorable
    exact absurd (by simp) hstorable

theorem calmly_invalidateMetrics (hs : Solo pid now w db [] 0) :
    Calmly limits pid invalidateMetrics w fun r w' => r = .ok () ∧ Solo pid now w' db [] 0 :=
  calmly_call fun _ _ => ⟨_, _, rfl, rfl,
    ⟨⟨hs.clock, hs.committed, hs.pending⟩, hs.writes, hs.running, hs.depth⟩⟩

/-- The end of a batch: completed with its errors, or an exception when these cannot be stored. -/
theorem calmly_finalizeBatch (hs : Solo pid now w db [] 0) (hbatch : Key.batch batchId ∈ db.keys)
    (errors : List String) :
    Calmly limits pid (finalizeBatch batchId errors) w fun r w' =>
      ((∀ e ∈ errors, storableText e) ∧ r = .ok () ∧
        Solo pid now w' (db.apply (.updateBatch batchId .completed errors)) [] 0) ∨
      (¬ (∀ e ∈ errors, storableText e) ∧ ∃ e, r = .error e ∧ Halted pid now w' db) := by
  refine Calmly.bind (Calmly.bind (calmly_updateStatus hs hbatch ?_ ?_))
  · intro hstorable w₁ hs₁
    refine calmly_commit_shallow hs₁ (Nat.zero_le 1) fun w₂ hs₂ _ =>
      Calmly.mono (calmly_invalidateMetrics hs₂) ?_
    rintro _ w₃ ⟨rfl, hs₃⟩
    exact Or.inl ⟨hstorable, rfl, hs₃⟩
  · intro hstorable w₁ e _ hs₁
    exact Or.inr ⟨hstorable, e, rfl, hs₁⟩

/-- A run of the worker on a file that can be parsed. -/
theorem calmly_streamAndProcess (hs : Solo pid now w db [] 0) (hbatch : Key.batch batchId ∈ db.keys)
    {file : Bytes} (hfile : w.storage (employeesKey cfg batchId) = some file)
    {records : List EmployeeRecord} {parseErrors : List String}
    (hparse : parseEmployees file = .ok (records, parseErrors))
    (hsize : 0 < cfg.employeeChunkSize) :
    let pass := (employeesTable batchId).insertAll db records
    let errors := parseErrors ++ pass.rejected.map EmployeeRecord.entry
    Calmly limits pid (streamAndProcess batchId cfg) w fun r w' =>
      ((∀ e ∈ errors, storableText e) ∧ r = .ok () ∧
        Solo pid now w' (pass.state.apply (.updateBatch batchId .completed errors)) [] 0) ∨
      (¬ (∀ e ∈ errors, storableText e) ∧ (∃ e, r = .error e) ∧
        Solo pid now w' (pass.state.apply (.updateBatch batchId .failed [])) [] 0) := by
  intro pass errors
  have hbatch' : Key.batch batchId ∈ pass.state.keys :=
    batch_mem_insertAll_employees records hbatch
  refine Calmly.tryExcept (Calmly.bind ?_)
  refine Calmly.mono (calmly_ingestFile hs hbatch hfile hparse hsize) ?_
  rintro _ w₁ ⟨rfl, hs₁⟩
  refine Calmly.mono (calmly_finalizeBatch hs₁ hbatch' errors) ?_
  rintro _ w₂ (⟨hstorable, rfl, hs₂⟩ | ⟨hstorable, e, rfl, hs₂⟩)
  · exact Or.inl ⟨hstorable, rfl, hs₂⟩
  · refine Calmly.bind (Calmly.mono (calmly_markBatchFailed hs₂ hbatch') ?_)
    rintro _ w₃ ⟨rfl, hs₃⟩
    exact calmly_throw (Or.inr ⟨hstorable, ⟨e, rfl⟩, hs₃⟩)

end Worker

/-! ## Which files complete their batch -/

theorem completedWith_updateBatch {db : Db} {batchId : BatchId} {status : IngestionBatchStatus}
    {errors errors' : List String} (hbatch : Key.batch batchId ∈ db.keys) :
    (db.apply (.updateBatch batchId status errors)).CompletedWith batchId errors' ↔
      status = .completed ∧ errors = errors' := by
  obtain ⟨b, hb⟩ := Option.isSome_iff_exists.mp ((batch_isSome_iff db).mpr hbatch)
  rw [Db.CompletedWith, apply_updateBatch_batch_self, hb]
  constructor
  · rintro ⟨_, hbatch', hstatus, herrors⟩
    cases hbatch'
    exact ⟨hstatus, Option.some.inj herrors⟩
  · rintro ⟨rfl, rfl⟩
    exact ⟨_, rfl, rfl, rfl⟩

/-- Without outages and polls, the worker of a file that can be parsed returns and completes its
batch, with every rejected record in the errors, exactly when no parsed name contains U+0000. -/
theorem streamAndProcess_completes_iff {pid : Pid} {batchId : BatchId} {cfg : Settings} {w : World}
    {file : Bytes} {records : List EmployeeRecord} {parseErrors : List String}
    {sched : ℕ → Choice} (hquiet : w.Quiet pid)
    (hbatch : batchId ∈ w.db.batches.map IngestionBatch.id)
    (hfile : w.storage (employeesKey cfg batchId) = some file)
    (hparse : parseEmployees file = .ok (records, parseErrors))
    (hsize : 1 ≤ cfg.employeeChunkSize) (hsched : ∀ n, (sched n).fault = none) :
    let pass := (employeesTable batchId).insertAll w.db records
    (∃ sched' w', (streamAndProcess batchId cfg).run (machine pid) sched w =
        some (.ok (), sched', w') ∧
      w'.db.CompletedWith batchId (parseErrors ++ pass.rejected.map EmployeeRecord.entry)) ↔
      ∀ r ∈ records, '\x00' ∉ r.name.toList := by
  intro pass
  have hkey := (mem_keys_batch w.db).mpr hbatch
  have hkey' : Key.batch batchId ∈ pass.state.keys := batch_mem_insertAll_employees records hkey
  have hiff := storable_errors_iff hparse batchId w.db
  have hcalm : Calmly (fun _ => True) pid (streamAndProcess batchId cfg) w _ :=
    calmly_streamAndProcess hquiet.solo hkey hfile hparse (by omega)
  obtain ⟨r, m, w', hrun, hend⟩ := hcalm.run fun n => ⟨hsched n, trivial⟩
  rcases hend with ⟨hstorable, rfl, hs⟩ | ⟨hstorable, ⟨e, rfl⟩, -⟩
  · refine iff_of_true ⟨_, w', hrun, ?_⟩ (hiff.mp hstorable)
    have hdb : w'.db = _ := hs.committed
    rw [hdb]
    exact (completedWith_updateBatch hkey').mpr ⟨rfl, rfl⟩
  · refine iff_of_false ?_ (mt hiff.mpr hstorable)
    rintro ⟨_, _, hrun', -⟩
    rw [hrun] at hrun'
    cases hrun'

/-- The settings of the samples. -/
def sampleSettings : Settings := ⟨"hiring", 2, 600⟩

/-- A file with one row, which names the employee 1. -/
def sampleFile (name : List UInt8) : Bytes :=
  [49, 44] ++ name ++ [44, 50, 48, 50, 49, 45, 48, 49, 45, 48, 49, 44, 49, 44, 49]

/-- The file of the samples: its second row claims the id of the first. -/
def clashingFile : Bytes := sampleFile [65] ++ [10] ++ sampleFile [66]

/-- The bulk insert of the file is refused, and of its two records the second one is rejected. -/
theorem streamAndProcess_completes_iff_sample :
    let w := World.initial sampleDb fun _ => some clashingFile
    let records : List EmployeeRecord :=
      [⟨1, "A", ⟨1609459200000000, none⟩, 1, 1⟩, ⟨1, "B", ⟨1609459200000000, none⟩, 1, 1⟩]
    let pass := (employeesTable 7).insertAll w.db records
    (∃ sched' w', (streamAndProcess 7 sampleSettings).run (machine 0) (fun _ => Choice.calm) w =
        some (.ok (), sched', w') ∧
      w'.db.CompletedWith 7 ([] ++ pass.rejected.map EmployeeRecord.entry)) ↔
      ∀ r ∈ records, '\x00' ∉ r.name.toList :=
  streamAndProcess_completes_iff ⟨rfl, rfl, rfl⟩ (by decide) rfl rfl (by decide) fun _ => rfl

/-- One record with U+0000 in its name fails the batch: the worker raises, and the batch ends as
failed without the entry of the rejected record. -/
theorem streamAndProcess_fails_on_nul_name :
    let w := World.initial sampleDb fun _ => some (sampleFile [0])
    let run := (streamAndProcess 7 sampleSettings).run (machine 0) (fun _ => Choice.calm) w
    parseEmployees (sampleFile [0]) =
        .ok ([⟨1, "\x00", ⟨1609459200000000, none⟩, 1, 1⟩], []) ∧
      run.map (fun o => (o.1, o.2.2.db.batch 7)) =
        some (.error (.data ""), some ⟨7, .failed, some [], 0⟩) ∧
      ¬ ∃ sched' w', run = some (.ok (), sched', w') ∧ w'.db.CompletedWith 7 ["1:\x00"] := by
  refine ⟨rfl, rfl, ?_⟩
  rintro ⟨sched', w', hrun, -⟩
  have hend : some (Except.error (Exn.data "")) = some (Except.ok ()) :=
    congrArg (Option.map Prod.fst) hrun
  cases hend

end HiringService
