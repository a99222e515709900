import HiringService.OnePass.Table
import HiringService.Worker

/-!
# What the database accepts

The constraints of the tables as a predicate on writes, and the two tables of `OnePass` that the
ingestions are compared with: departments or jobs, and employees. When no other transaction is open,
an `INSERT` with several rows succeeds exactly when a pass that inserts the rows one by one rejects
none of them.
-/

namespace HiringService

open OnePass (Table)

/-! ## Constraints -/

/-- The constraints that a database in state `db` checks on a write. -/
structure Db.Admits (db : Db) (w : Write) : Prop where
  storable : w.storable
  keys_new : ∀ k ∈ w.keys, k ∉ db.keys
  keys_nodup : w.keys.Nodup
  foreignKeys : ∀ fk ∈ w.foreignKeys, fk.target ∈ db.keys

theorem claimKeys_eq_granted_iff {taken held ks : List Key} :
    claimKeys taken held ks = .granted ↔ ks.Nodup ∧ ∀ k ∈ ks, k ∉ taken ∧ k ∉ held := by
  induction ks generalizing taken with
  | nil => simp [claimKeys]
  | cons k ks ih =>
      rw [claimKeys]
      by_cases htaken : k ∈ taken
      · rw [if_pos htaken]
        simp [htaken]
      · by_cases hheld : k ∈ held
        · rw [if_neg htaken, if_pos hheld]
          simp [hheld]
        · rw [if_neg htaken, if_neg hheld, ih, List.nodup_cons, List.forall_mem_cons]
          simp only [List.mem_cons, not_or]
          constructor
          · rintro ⟨hnodup, hks⟩
            refine ⟨⟨fun hk => (hks k hk).1.1 rfl, hnodup⟩, ⟨htaken, hheld⟩, ?_⟩
            exact fun k' hk' => ⟨(hks k' hk').1.2, (hks k' hk').2⟩
          · rintro ⟨⟨hk, hnodup⟩, -, hks⟩
            refine ⟨hnodup, fun k' hk' => ⟨⟨?_, (hks k' hk').1⟩, (hks k' hk').2⟩⟩
            rintro rfl
            exact hk hk'

/-- A claim waits for the first key that another transaction holds; those before are free. -/
theorem claimKeys_eq_wait {taken held ks : List Key} (h : claimKeys taken held ks = .wait) :
    ∃ free k rest, ks = free ++ k :: rest ∧ k ∈ held ∧ claimKeys taken held free = .granted := by
  induction ks generalizing taken with
  | nil => cases h
  | cons k ks ih =>
      rw [claimKeys] at h
      split at h
      · cases h
      split at h
      · rename_i hheld
        exact ⟨[], k, ks, rfl, hheld, rfl⟩
      · rename_i htaken hfree
        obtain ⟨free, k', rest, rfl, hheld, hgranted⟩ := ih h
        refine ⟨k :: free, k', rest, rfl, hheld, ?_⟩
        rw [claimKeys, if_neg htaken, if_neg hfree, hgranted]

/-- When more keys are held, a claim that was granted is still granted, or it waits. -/
theorem claimKeys_of_granted {taken held ks : List Key} (held' : List Key)
    (h : claimKeys taken held ks = .granted) :
    claimKeys taken held' ks = .granted ∨ claimKeys taken held' ks = .wait := by
  induction ks generalizing taken with
  | nil => exact Or.inl rfl
  | cons k ks ih =>
      rw [claimKeys] at h
      split_ifs at h with htaken hheld
      rw [claimKeys, if_neg htaken]
      split_ifs
      · exact Or.inr rfl
      · exact ih h

/-- When more keys are held, a claim that waited still waits. -/
theorem claimKeys_of_wait {taken held held' ks : List Key} (hsub : held ⊆ held')
    (h : claimKeys taken held ks = .wait) : claimKeys taken held' ks = .wait := by
  induction ks generalizing taken with
  | nil => cases h
  | cons k ks ih =>
      rw [claimKeys] at h
      split_ifs at h with htaken hheld
      · rw [claimKeys, if_neg htaken, if_pos (hsub hheld)]
      · rw [claimKeys, if_neg htaken]
        split_ifs
        · rfl
        · exact ih h

/-- What can become of an insert: it goes through when its keys are free and the constraints hold;
it waits for a key of another transaction; or it is refused, and not as an outage. -/
theorem planInsert_spec (view : Db) (held : List Write) (sql : String) (w : Write) :
    match planInsert view held sql w with
    | .write w' => w' = w ∧ w.isEmpty = false ∧ view.Admits w ∧
        ∀ k ∈ w.keys, k ∉ held.flatMap Write.keys
    | .skip => False
    | .refuse e => e.isOperational = false
    | .wait => ∃ k ∈ w.keys, k ∈ held.flatMap Write.keys := by
  by_cases hempty : w.isEmpty = true
  · simp [planInsert, hempty, Exn.isOperational]
  by_cases hstorable : w.storable
  · rcases hclaim : claimKeys view.keys (held.flatMap Write.keys) w.keys with _ | key | _
    · obtain ⟨hnodup, hfree⟩ := claimKeys_eq_granted_iff.mp hclaim
      rcases hfk : w.foreignKeys.find? fun fk => fk.target ∉ view.keys with _ | fk
      · simp only [planInsert, hempty, hstorable, hclaim, hfk]
        refine ⟨rfl, trivial, ⟨hstorable, fun k hk => (hfree k hk).1, hnodup, ?_⟩,
          fun k hk => (hfree k hk).2⟩
        exact fun fk hmem => by simpa using List.find?_eq_none.mp hfk fk hmem
      · simp only [planInsert, hempty, hstorable, hclaim, hfk]
        rfl
    · simp [planInsert, hempty, hstorable, hclaim, Exn.isOperational]
    · simp only [planInsert, hempty, hstorable, hclaim]
      obtain ⟨free, k, rest, hkeys, hheld, -⟩ := claimKeys_eq_wait hclaim
      exact ⟨k, by simp [hkeys], hheld⟩
  · simp [planInsert, hempty, hstorable, Exn.isOperational]

/-- When no other transaction is open, an insert that meets the constraints goes through. -/
theorem planInsert_of_admits {view : Db} (sql : String) {w : Write} (hempty : w.isEmpty = false)
    (h : view.Admits w) : planInsert view [] sql w = .write w := by
  have hclaim : claimKeys view.keys ([].flatMap Write.keys) w.keys = .granted :=
    claimKeys_eq_granted_iff.mpr ⟨h.keys_nodup, fun k hk => ⟨h.keys_new k hk, List.not_mem_nil⟩⟩
  have hfk : (w.foreignKeys.find? fun fk => fk.target ∉ view.keys) = none :=
    List.find?_eq_none.mpr fun fk hfk => by simpa using h.foreignKeys fk hfk
  unfold planInsert
  rw [if_neg (by simp [hempty]), if_neg (not_not.mpr h.storable), hclaim]
  simp only [hfk]

/-- Any other insert is refused then, and not as an outage. -/
theorem planInsert_of_not_admits {view : Db} (sql : String) {w : Write}
    (h : w.isEmpty = true ∨ ¬ view.Admits w) :
    ∃ e, planInsert view [] sql w = .refuse e ∧ e.isOperational = false := by
  have hspec := planInsert_spec view [] sql w
  rcases hplan : planInsert view [] sql w with w' | _ | e | _
  · rw [hplan] at hspec
    obtain ⟨-, hempty, hadmits, -⟩ := hspec
    rcases h with h | h
    · rw [hempty] at h
      cases h
    · exact absurd hadmits h
  · rw [hplan] at hspec
    exact hspec.elim
  · rw [hplan] at hspec
    exact ⟨e, rfl, hspec⟩
  · rw [hplan] at hspec
    obtain ⟨k, -, hk⟩ := hspec
    exact absurd hk List.not_mem_nil

/-- What can become of an update of a batch: it waits for the lock of another update, it finds no
row, or it is refused because `jsonb` cannot store the errors, which is no outage either. -/
theorem plan_updateStatus_spec (view : Db) (held : List Write) (now : ℕ) (sql : String)
    (batchId : BatchId) (status : IngestionBatchStatus) (errors : List String) :
    match (Statement.updateStatus batchId status errors).plan view held now sql with
    | .write w => w = .updateBatch batchId status errors ∧ (∀ e ∈ errors, storableText e) ∧
        Key.batch batchId ∈ view.keys
    | .skip => Key.batch batchId ∉ view.keys
    | .refuse e => e.isOperational = false ∧ ¬ ∀ e ∈ errors, storableText e
    | .wait => held.any (Write.locks batchId) = true := by
  simp only [Statement.plan]
  by_cases hstorable : ((Statement.updateStatus batchId status errors).write now).storable
  · rw [if_neg (not_not.mpr hstorable)]
    by_cases hlock : held.any (Write.locks batchId) = true
    · rw [if_pos hlock]
      exact hlock
    · by_cases hbatch : Key.batch batchId ∈ view.keys
      · rw [if_neg hlock, if_pos hbatch]
        exact ⟨rfl, hstorable, hbatch⟩
      · rw [if_neg hlock, if_neg hbatch]
        exact hbatch
  · rw [if_pos hstorable]
    exact ⟨rfl, hstorable⟩

/-- A statement that is not an update of a batch. -/
def Statement.Inserts (s : Statement) : Prop :=
  ∀ view held now sql, s.plan view held now sql = planInsert view held sql (s.write now)

theorem addBatch_inserts (batchId : BatchId) (status : IngestionBatchStatus) :
    (Statement.addBatch batchId status).Inserts := fun _ _ _ _ => rfl

theorem insertReference_inserts (t : ReferenceTable) (rows : List ReferenceRow) :
    (Statement.insertReference t rows).Inserts := fun _ _ _ _ => rfl

theorem insertEmployees_inserts (rows : List EmployeeValues) :
    (Statement.insertEmployees rows).Inserts := fun _ _ _ _ => rfl

/-- An insert is never without effect. -/
theorem Statement.Inserts.plan_ne_skip {s : Statement} (h : s.Inserts) (view : Db)
    (held : List Write) (now : ℕ) (sql : String) : s.plan view held now sql ≠ .skip := by
  intro hskip
  have hspec := planInsert_spec view held sql (s.write now)
  rw [← h, hskip] at hspec
  exact hspec

/-! ## The reference passes -/

/-- Departments or jobs, inserted under `batchId`. -/
def referenceTable (t : ReferenceTable) (batchId : BatchId) : Table Db ReferenceRecord where
  accepts db r := r.id ∉ (db.reference t).map ReferenceRow.id ∧ (r.toRow batchId).storable
  insert db r := db.appendReference [r.toRow batchId] t
  decide db r := by infer_instance

/-- Employees, inserted under `batchId`. -/
def employeesTable (batchId : BatchId) : Table Db EmployeeRecord where
  accepts db r := r.id ∉ db.employees.map EmployeeRow.id ∧
    r.departmentId ∈ db.departments.map ReferenceRow.id ∧ r.jobId ∈ db.jobs.map ReferenceRow.id ∧
    (r.values batchId).storable
  insert db r := { db with employees := db.employees ++ [r.toRow batchId] }
  decide db r := by infer_instance

/-- `w` inserts the rows of `w₁` and then those of `w₂`, which do not refer to the former. -/
structure Write.Splits (w w₁ w₂ : Write) : Prop where
  storable : w.storable ↔ w₁.storable ∧ w₂.storable
  keys : w.keys = w₁.keys ++ w₂.keys
  foreignKeys : w.foreignKeys = w₁.foreignKeys ++ w₂.foreignKeys
  independent : ∀ fk ∈ w₂.foreignKeys, fk.target ∉ w₁.keys

/-- Inserting at once is allowed when inserting in two steps is. -/
theorem Write.Splits.admits_iff {w w₁ w₂ : Write} (h : w.Splits w₁ w₂) {db : Db} :
    db.Admits w ↔ db.Admits w₁ ∧ (db.apply w₁).Admits w₂ := by
  have hmem : ∀ k, k ∈ (db.apply w₁).keys ↔ k ∈ db.keys ∨ k ∈ w₁.keys := fun k => by
    rw [(keys_apply db w₁).mem_iff, List.mem_append]
  constructor
  · rintro ⟨hstorable, hnew, hnodup, hfk⟩
    rw [h.keys] at hnew hnodup
    rw [h.foreignKeys] at hfk
    obtain ⟨hnodup₁, hnodup₂, hdisjoint⟩ := List.nodup_append.mp hnodup
    refine ⟨⟨(h.storable.mp hstorable).1, fun k hk => hnew k (List.mem_append_left _ hk), hnodup₁,
      fun fk hmem => hfk fk (List.mem_append_left _ hmem)⟩,
      ⟨(h.storable.mp hstorable).2, ?_, hnodup₂, ?_⟩⟩
    · -- a key of the second part is new also behind the first one, as the keys are distinct
      intro k hk hk'
      rcases (hmem k).mp hk' with hdb | h₁
      · exact hnew k (List.mem_append_right _ hk) hdb
      · exact hdisjoint k h₁ k hk rfl
    · exact fun fk hk => (hmem _).mpr (Or.inl (hfk fk (List.mem_append_right _ hk)))
  · rintro ⟨⟨hstorable₁, hnew₁, hnodup₁, hfk₁⟩, ⟨hstorable₂, hnew₂, hnodup₂, hfk₂⟩⟩
    refine ⟨h.storable.mpr ⟨hstorable₁, hstorable₂⟩, ?_, ?_, ?_⟩
    · rw [h.keys]
      intro k hk hdb
      rcases List.mem_append.mp hk with hk | hk
      · exact hnew₁ k hk hdb
      · exact hnew₂ k hk ((hmem k).mpr (Or.inl hdb))
    · rw [h.keys, List.nodup_append]
      refine ⟨hnodup₁, hnodup₂, ?_⟩
      rintro k hk₁ _ hk₂ rfl
      exact hnew₂ k hk₂ ((hmem k).mpr (Or.inr hk₁))
    · rw [h.foreignKeys]
      intro fk hfk
      rcases List.mem_append.mp hfk with hfk | hfk
      · exact hfk₁ fk hfk
      · -- the target of the second part is no row of the first one
        rcases (hmem _).mp (hfk₂ fk hfk) with hdb | h₁
        · exact hdb
        · exact absurd h₁ (h.independent fk hfk)

section Reference

variable {t : ReferenceTable} {batchId : BatchId} {db : Db} {records : List ReferenceRecord}

theorem splits_reference (row : ReferenceRow) (rows : List ReferenceRow) :
    (Write.insertReference t (row :: rows)).Splits (.insertReference t [row])
      (.insertReference t rows) where
  storable := by simp [Write.storable]
  keys := rfl
  foreignKeys := rfl
  independent := by simp [Write.foreignKeys, Write.keys]

/-- Where the batch exists, a row that the pass accepts is one that the database accepts. -/
theorem admits_reference_row_iff (hbatch : Key.batch batchId ∈ db.keys) {r : ReferenceRecord} :
    db.Admits (.insertReference t [r.toRow batchId]) ↔ (referenceTable t batchId).accepts db r := by
  constructor
  · intro h
    refine ⟨fun hid => ?_, h.storable _ List.mem_cons_self⟩
    exact h.keys_new _ List.mem_cons_self ((mem_keys_reference db).mpr hid)
  · rintro ⟨hid, hstorable⟩
    refine ⟨by simpa [Write.storable] using hstorable, ?_, List.nodup_singleton _, ?_⟩
    · intro k hk
      rw [List.mem_singleton.mp hk, mem_keys_reference]
      exact hid
    · intro fk hfk
      rw [List.mem_singleton.mp hfk]
      exact hbatch

/-- A multi-row insert goes through exactly when the pass rejects nothing. -/
theorem admits_reference_rows_iff (hbatch : Key.batch batchId ∈ db.keys) :
    db.Admits (.insertReference t (records.map (ReferenceRecord.toRow batchId))) ↔
      ((referenceTable t batchId).insertAll db records).rejected = [] := by
  induction records generalizing db with
  | nil => exact ⟨fun _ => rfl, fun _ => ⟨by simp [Write.storable], by simp [Write.keys],
      List.nodup_nil, by simp [Write.foreignKeys]⟩⟩
  | cons r rs ih =>
      rw [Table.rejected_cons_eq_nil_iff, List.map_cons, (splits_reference _ _).admits_iff,
        admits_reference_row_iff hbatch]
      refine and_congr_right' (ih ?_)
      rw [(keys_apply db _).mem_iff]
      exact List.mem_append_left _ hbatch

/-- The rows that a pass adds. -/
theorem referenceTable_foldl (rs : List ReferenceRecord) :
    rs.foldl (referenceTable t batchId).insert db =
      db.appendReference (rs.map (ReferenceRecord.toRow batchId)) t := by
  induction rs generalizing db with
  | nil => cases t <;> simp [Db.appendReference]
  | cons r rs ih =>
      rw [List.foldl_cons, ih]
      cases t <;> simp [referenceTable, Db.appendReference]

/-- A record that is in the table, or that cannot be stored, stays rejected. -/
theorem referenceTable_monotone : (referenceTable t batchId).Monotone where
  insert_self db r h := by
    refine h.1 ?_
    cases t <;> simp [referenceTable, Db.appendReference, Db.reference, ReferenceRecord.toRow]
  insert_of_not db r y h hy := by
    refine h ⟨fun hid => hy.1 ?_, hy.2⟩
    cases t <;>
    · simp only [referenceTable, Db.appendReference, Db.reference, List.map_append, List.mem_append]
      exact Or.inl hid

end Reference

section Employees

variable {batchId : BatchId} {db : Db} {records : List EmployeeRecord}

theorem splits_employees (row : EmployeeValues) (rows : List EmployeeValues) :
    (Write.insertEmployees (row :: rows)).Splits (.insertEmployees [row])
      (.insertEmployees rows) where
  storable := by simp [Write.storable]
  keys := rfl
  foreignKeys := by simp [Write.foreignKeys]
  independent := by
    intro fk hfk hkey
    obtain ⟨r, -, hr⟩ := List.mem_flatMap.mp hfk
    simp only [List.mem_cons, List.not_mem_nil, or_false] at hr
    rcases hr with rfl | rfl | rfl
    all_goals cases List.mem_singleton.mp hkey

/-- Where the batch exists, a row that the pass accepts is one that the database accepts. -/
theorem admits_employee_row_iff (hbatch : Key.batch batchId ∈ db.keys) {r : EmployeeRecord} :
    db.Admits (.insertEmployees [r.values batchId]) ↔ (employeesTable batchId).accepts db r := by
  constructor
  · intro h
    refine ⟨fun hid => ?_, ?_, ?_, h.storable _ List.mem_cons_self⟩
    · exact h.keys_new _ List.mem_cons_self ((mem_keys_employee db).mpr hid)
    · have hfk := h.foreignKeys ⟨"employees", "department_id", .reference .departments r.departmentId⟩
        (by simp [Write.foreignKeys, EmployeeRecord.values, EmployeeRecord.toRow])
      exact (mem_keys_reference db).mp hfk
    · have hfk := h.foreignKeys ⟨"employees", "job_id", .reference .jobs r.jobId⟩
        (by simp [Write.foreignKeys, EmployeeRecord.values, EmployeeRecord.toRow])
      exact (mem_keys_reference db).mp hfk
  · rintro ⟨hid, hdepartment, hjob, hstorable⟩
    refine ⟨by simpa [Write.storable] using hstorable, ?_, List.nodup_singleton _, ?_⟩
    · intro k hk
      rw [List.mem_singleton.mp hk, mem_keys_employee]
      exact hid
    · simp only [Write.foreignKeys, List.flatMap_cons, List.flatMap_nil, List.append_nil,
        List.forall_mem_cons]
      exact ⟨hbatch, (mem_keys_reference db).mpr hdepartment, (mem_keys_reference db).mpr hjob,
        by simp⟩

/-- A multi-row insert goes through exactly when the pass rejects nothing. -/
theorem admits_employee_rows_iff (hbatch : Key.batch batchId ∈ db.keys) :
    db.Admits (.insertEmployees (records.map (EmployeeRecord.values batchId))) ↔
      ((employeesTable batchId).insertAll db records).rejected = [] := by
  induction records generalizing db with
  | nil => exact ⟨fun _ => rfl, fun _ => ⟨by simp [Write.storable], by simp [Write.keys],
      List.nodup_nil, by simp [Write.foreignKeys]⟩⟩
  | cons r rs ih =>
      rw [Table.rejected_cons_eq_nil_iff, List.map_cons, (splits_employees _ _).admits_iff,
        admits_employee_row_iff hbatch]
      refine and_congr_right' (ih ?_)
      rw [(keys_apply db _).mem_iff]
      exact List.mem_append_left _ hbatch

/-- The rows that a pass adds. -/
theorem employeesTable_foldl (rs : List EmployeeRecord) :
    rs.foldl (employeesTable batchId).insert db =
      { db with employees := db.employees ++ rs.map (EmployeeRecord.toRow batchId) } := by
  induction rs generalizing db with
  | nil => simp
  | cons r rs ih =>
      rw [List.foldl_cons, ih]
      simp [employeesTable]

/-- A record that is in the table, or that violates another constraint, stays rejected. -/
theorem employeesTable_monotone : (employeesTable batchId).Monotone where
  insert_self db r h := by
    refine h.1 ?_
    simp [employeesTable, EmployeeRecord.toRow]
  insert_of_not db r y h hy := by
    refine h ⟨fun hid => hy.1 ?_, hy.2⟩
    simp only [employeesTable, List.map_append, List.mem_append]
    exact Or.inl hid

end Employees

end HiringService
