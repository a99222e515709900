import HiringService.Calm

/-!
# Writing employees in chunks

Undisturbed, the chunked writer of the worker does what one pass over the records does: bulk insert,
rollback, fallback, savepoints and the commits of single rows leave the same rows and the same error
entries, whatever the chunk size.
-/

namespace HiringService

open Effect (Program)

/-! ## Chunks -/

theorem flatten_slices {α : Type} (items : List α) (size count : ℕ) :
    ((List.range count).map fun i => (items.drop (i * size)).take size).flatten =
      items.take (count * size) := by
  induction count with
  | zero => simp
  | succ count ih =>
      rw [List.range_succ, List.map_append, List.flatten_append, ih, Nat.succ_mul, List.take_add]
      simp

/-- With a positive size the chunks are the items, in order. -/
theorem iterChunks_of_pos {α : Type} (items : List α) {size : ℤ} (hsize : 0 < size) :
    ∃ chunks, iterChunks items size = .ok chunks ∧ chunks.flatten = items := by
  obtain ⟨n, rfl⟩ : ∃ n : ℕ, size = Int.ofNat (n + 1) := ⟨size.toNat - 1, by
    rw [Int.ofNat_eq_natCast]
    omega⟩
  refine ⟨_, rfl, ?_⟩
  rw [flatten_slices]
  refine List.take_of_length_le ?_
  have hdiv := Nat.div_add_mod (items.length + n) (n + 1)
  have hmod : (items.length + n) % (n + 1) < n + 1 := Nat.mod_lt _ n.succ_pos
  rw [Nat.mul_comm] at hdiv
  omega

/-! ## The writer -/

section Writer

variable {limits : ℕ+ → Prop} {pid : Pid} {now : ℕ} {batchId : BatchId} {w : World} {db : Db}
  {errors : List String}

/-- What a writer leaves that was called with the records `records` and the errors `errors`: the
rows of one pass in the database, and its rejected records appended to the errors. -/
def Passed (pid : Pid) (now : ℕ) (batchId : BatchId) (db : Db) (records : List EmployeeRecord)
    (errors : List String) (r : Except Exn (List String)) (w : World) : Prop :=
  let pass := (employeesTable batchId).insertAll db records
  r = .ok (errors ++ pass.rejected.map EmployeeRecord.entry) ∧ Solo pid now w pass.state [] 0

/-- A pass leaves the batches alone. -/
theorem insertAll_employees_batches (records : List EmployeeRecord) :
    ((employeesTable batchId).insertAll db records).state.batches = db.batches := by
  rw [OnePass.Table.state_eq_foldl, employeesTable_foldl]

theorem batch_mem_insertAll_employees (records : List EmployeeRecord)
    (hbatch : Key.batch batchId ∈ db.keys) :
    Key.batch batchId ∈ ((employeesTable batchId).insertAll db records).state.keys := by
  rw [mem_keys_batch] at hbatch ⊢
  rwa [insertAll_employees_batches]

/-- One record: its row is committed, or its entry is added to the errors. -/
theorem calmly_writeRow (hs : Solo pid now w db [] 0) (hbatch : Key.batch batchId ∈ db.keys)
    (record : EmployeeRecord) :
    Calmly limits pid (writeRow batchId errors record) w
      (Passed pid now batchId db [record] errors) := by
  refine Calmly.tryExcept (Calmly.bind (calmly_beginNested hs fun w₁ hs₁ hrecover => ?_))
  refine Calmly.bind (calmly_insert hs₁ (insertEmployees_inserts _) ?_ ?_)
  · intro hadmits w₂ hs₂ _
    have haccepts := (admits_employee_row_iff hbatch).mp hadmits
    -- the savepoint of this record is the only one
    refine Calmly.bind (calmly_commit_shallow hs₂ le_rfl fun w₃ hs₃ _ => calmly_pure ?_)
    show Passed _ _ _ _ _ _ _ _
    rw [Passed, OnePass.Table.insertAll_cons_of_accepts haccepts]
    exact ⟨by simp, hs₃⟩
  · rintro hadmits _ e he rfl
    have hrow := hadmits.resolve_left Bool.false_ne_true
    have haccepts := mt (admits_employee_row_iff hbatch).mpr hrow
    show Calmly _ _ _ _ _
    rw [he]
    refine Calmly.bind (calmly_rollbackToSavepoint hrecover fun w₂ hs₂ => calmly_pure ?_)
    rw [Passed, OnePass.Table.insertAll_cons_of_not_accepts haccepts]
    exact ⟨by simp, hs₂⟩

/-- A loop of writers is a writer. -/
theorem calmly_foldlM {α : Type} {f : List String → α → Prog (List String)}
    (recordsOf : α → List EmployeeRecord)
    (hf : ∀ {w db errors} x, Solo pid now w db [] 0 → Key.batch batchId ∈ db.keys →
      Calmly limits pid (f errors x) w (Passed pid now batchId db (recordsOf x) errors))
    (xs : List α) (errors : List String) (hs : Solo pid now w db [] 0)
    (hbatch : Key.batch batchId ∈ db.keys) :
    Calmly limits pid (xs.foldlM f errors) w
      (Passed pid now batchId db (xs.flatMap recordsOf) errors) := by
  induction xs generalizing w db errors with
  | nil => exact calmly_pure ⟨by simp, hs⟩
  | cons x xs ih =>
      rw [List.foldlM_cons]
      refine Calmly.bind (Calmly.mono (hf x hs hbatch) ?_)
      rintro _ w₁ ⟨rfl, hs₁⟩
      refine Calmly.mono (ih _ hs₁ (batch_mem_insertAll_employees _ hbatch)) ?_
      rintro _ w₂ ⟨rfl, hs₂⟩
      rw [Passed, List.flatMap_cons, OnePass.Table.insertAll_append]
      exact ⟨by simp, hs₂⟩

theorem calmly_writeRowByRow (hs : Solo pid now w db [] 0) (hbatch : Key.batch batchId ∈ db.keys)
    (records : List EmployeeRecord) :
    Calmly limits pid (writeRowByRow batchId records) w
      (Passed pid now batchId db records []) := by
  have hloop : Calmly limits pid (writeRowByRow batchId records) w _ := calmly_foldlM (fun r => [r])
    (fun record hs hbatch => calmly_writeRow hs hbatch record) records [] hs hbatch
  rwa [List.flatMap_singleton'] at hloop

/-- The bulk insert commits the rows of the pass when the pass rejects nothing; otherwise it leaves
the database as it was. -/
theorem calmly_writeBulk (hs : Solo pid now w db [] 0) (hbatch : Key.batch batchId ∈ db.keys)
    (records : List EmployeeRecord) :
    Calmly limits pid (writeBulk batchId records) w fun r w' =>
      (r = .ok true ∧ ((employeesTable batchId).insertAll db records).rejected = [] ∧
        Solo pid now w' ((employeesTable batchId).insertAll db records).state [] 0) ∨
      (r = .ok false ∧ Solo pid now w' db [] 0) := by
  refine Calmly.tryExcept (Calmly.bind (calmly_insert hs (insertEmployees_inserts _) ?_ ?_))
  · intro hadmits w₁ hs₁ _
    have hrejected := (admits_employee_rows_iff hbatch).mp hadmits
    refine Calmly.bind (calmly_commit_shallow hs₁ (Nat.zero_le 1) fun w₂ hs₂ _ =>
      calmly_pure (Or.inl ⟨rfl, hrejected, ?_⟩))
    rw [OnePass.Table.state_eq_foldl, OnePass.Table.accepted_eq_of_rejected_eq_nil hrejected,
      employeesTable_foldl, ← map_toEmployeeRow_values]
    exact hs₂
  · rintro - _ e he rfl
    refine Calmly.bind (calmly_rollback hs.toHalted.fail fun w₁ hs₁ => ?_)
    rw [he]
    exact calmly_pure (Or.inr ⟨rfl, hs₁⟩)

/-- `write_employees` is a writer. -/
theorem calmly_writeEmployees (hs : Solo pid now w db [] 0) (hbatch : Key.batch batchId ∈ db.keys)
    (records : List EmployeeRecord) :
    Calmly limits pid (writeEmployees batchId records) w
      (Passed pid now batchId db records []) := by
  refine Calmly.bind (Calmly.mono (calmly_writeBulk hs hbatch records) ?_)
  rintro r w₁ (⟨rfl, hrejected, hs₁⟩ | ⟨rfl, hs₁⟩)
  · refine calmly_pure ⟨?_, hs₁⟩
    rw [hrejected]
    rfl
  · exact calmly_writeRowByRow hs₁ hbatch records

/-- `write_employees` over the chunks of a list. -/
theorem calmly_writeRecords (hs : Solo pid now w db [] 0) (hbatch : Key.batch batchId ∈ db.keys)
    {size : ℤ} (hsize : 0 < size) (errors : List String) (records : List EmployeeRecord) :
    Calmly limits pid (writeRecords batchId size errors records) w
      (Passed pid now batchId db records errors) := by
  obtain ⟨chunks, hchunks, hflatten⟩ := iterChunks_of_pos records hsize
  refine Calmly.bind (calmly_lift_ok hchunks ?_)
  rw [← hflatten, ← List.flatMap_id]
  refine calmly_foldlM id (fun chunk hs hbatch => ?_) chunks errors hs hbatch
  refine Calmly.bind (Calmly.mono (calmly_writeEmployees hs hbatch chunk) ?_)
  rintro _ w₁ ⟨rfl, hs₁⟩
  exact calmly_pure ⟨by simp, hs₁⟩

end Writer

/-! ## The writer refines a pass -/

/-- For every database, every list of records and every positive chunk size, the chunked writer
returns the entries of the records that one pass over the list rejects, and leaves the rows of that
pass behind the rows that were there. -/
theorem writeRecords_refines_onePass {pid : Pid} {batchId : BatchId} {w : World} {size : ℤ}
    {records : List EmployeeRecord} {sched : ℕ → Choice} (hquiet : w.Quiet pid)
    (hbatch : batchId ∈ w.db.batches.map IngestionBatch.id) (hsize : 1 ≤ size)
    (hsched : ∀ n, (sched n).fault = none) :
    let pass := (employeesTable batchId).insertAll w.db records
    ∃ m w', (writeRecords batchId size [] records).run (machine pid) sched w =
        some (.ok (pass.rejected.map EmployeeRecord.entry), fun n => sched (n + m), w') ∧
      w'.db = pass.state ∧
      w'.db = { w.db with
        employees := w.db.employees ++ pass.accepted.map (EmployeeRecord.toRow batchId) } := by
  have hcalm : Calmly (fun _ => True) pid (writeRecords batchId size [] records) w _ :=
    calmly_writeRecords hquiet.solo ((mem_keys_batch w.db).mpr hbatch) (by omega) [] records
  obtain ⟨_, m, w', hrun, rfl, hs⟩ := hcalm.run fun n => ⟨hsched n, trivial⟩
  refine ⟨m, w', by simpa using hrun, hs.committed, ?_⟩
  rw [← employeesTable_foldl, ← OnePass.Table.state_eq_foldl]
  exact hs.committed

/-- A pending batch with a department and a job to refer to. -/
def sampleDb : Db where
  batches := [⟨3, .completed, some [], 0⟩, ⟨7, .pending, none, 0⟩]
  departments := [⟨1, "Sales", 3⟩]
  jobs := [⟨1, "Clerk", 3⟩]
  employees := []

theorem writeRecords_refines_onePass_sample :
    let w := World.initial sampleDb fun _ => none
    let records : List EmployeeRecord := [⟨1, "Ann", ⟨0, none⟩, 1, 1⟩, ⟨1, "Bob", ⟨0, none⟩, 1, 1⟩,
      ⟨2, "Cleo", ⟨0, some 57600000000⟩, 1, 1⟩, ⟨3, "Dan", ⟨0, some 19800000000⟩, 1, 1⟩]
    let pass := (employeesTable 7).insertAll w.db records
    ∃ m w', (writeRecords 7 3 [] records).run (machine 0) (fun _ => Choice.calm) w =
        some (.ok (pass.rejected.map EmployeeRecord.entry), fun n => (fun _ => Choice.calm) (n + m),
          w') ∧
      w'.db = pass.state ∧
      w'.db = { w.db with
        employees := w.db.employees ++ pass.accepted.map (EmployeeRecord.toRow 7) } :=
  writeRecords_refines_onePass ⟨rfl, rfl, rfl⟩ (by decide) (by decide) fun _ => rfl

end HiringService
