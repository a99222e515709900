import HiringService.Frame

/-!
# What other processes do

`Foreign pid allowed frozen` is the interference that a process `pid` has to expect between two of
its calls: other transactions commit writes that are `allowed`, the objects under `frozen` keys stay
in storage, and nothing is taken back from the history. The session of `pid` itself is out of their
reach.
-/

namespace HiringService

open Effect (Env)

/-- The effect of other processes on the world of `pid`. -/
structure Foreign (pid : Pid) (allowed : Write → Prop) (frozen : ObjectKey → Prop) (w w' : World) :
    Prop where
  own : w'.server.own pid = w.server.own pid
  session : w'.server.sessions pid = w.server.sessions pid
  slot : w'.slot pid = w.slot pid
  storage : ∀ key, frozen key → w'.storage key = w.storage key
  history : ∀ e ∈ w.history, e ∈ w'.history
  db : ∃ ws : List Write, (∀ wr ∈ ws, allowed wr) ∧ w'.db = ws.foldl Db.apply w.db

section

variable {pid : Pid} {allowed allowed' : Write → Prop} {frozen : ObjectKey → Prop}
  {w w' w'' : World}

/-- Nothing has happened. -/
theorem Foreign.refl (w : World) : Foreign pid allowed frozen w w :=
  ⟨rfl, rfl, rfl, fun _ _ => rfl, fun _ he => he, [], nofun, rfl⟩

/-- What two others do one after the other. -/
theorem Foreign.trans (h : Foreign pid allowed frozen w w') (h' : Foreign pid allowed frozen w' w'') :
    Foreign pid allowed frozen w w'' := by
  obtain ⟨ws, hws, hdb⟩ := h.db
  obtain ⟨ws', hws', hdb'⟩ := h'.db
  refine ⟨h'.own.trans h.own, h'.session.trans h.session, h'.slot.trans h.slot,
    fun key hkey => (h'.storage key hkey).trans (h.storage key hkey),
    fun e he => h'.history e (h.history e he), ws ++ ws', ?_, ?_⟩
  · exact fun wr hwr => (List.mem_append.mp hwr).elim (hws wr) (hws' wr)
  · rw [hdb', hdb, List.foldl_append]

/-- What a process may expect of the others, and which guarantee its own calls have to give them. -/
structure Neighbours where
  allowed : Write → Prop
  frozen : ObjectKey → Prop
  guar : World → World → Prop
  may : Choice → Op → Prop

/-- The environment of a process among its neighbours: a call may have to wait. -/
def Neighbours.env (N : Neighbours) (pid : Pid) : Env (machine pid) where
  rely := Foreign pid N.allowed N.frozen
  guar := N.guar
  may := N.may
  mayBlock := True
  refl := Foreign.refl
  trans := Foreign.trans

/-- A call only adds to the history. -/
theorem Called.history_mem {q : Pid} {op : Op} (h : Called q op w w') :
    ∀ e ∈ w.history, e ∈ w'.history := by
  intro e he
  rcases h.history with hsame | ⟨-, hpublished⟩ | ⟨keys, -, hdelete⟩
  · rwa [hsame]
  · rw [hpublished.history]
    exact List.mem_append_left _ he
  · rw [hdelete]
    exact List.mem_append_left _ he

/-- A call of another process, if it commits nothing but allowed writes and does not upload to a
frozen key. -/
theorem Called.foreign {q : Pid} {op : Op} (h : Called q op w w') (hq : pid ≠ q)
    (hown : op = .commit → ∀ e ∈ w.server.own q, allowed e.write)
    (hupload : ∀ key file, op = .uploadFile key file → ¬ frozen key) :
    Foreign pid allowed frozen w w' := by
  refine ⟨h.own_other pid hq, h.sessions_other pid hq, h.slot_other pid hq, fun key hkey => ?_,
    h.history_mem, ?_⟩
  · rcases h.storage key with hsame | ⟨file, hop, -⟩
    · exact hsame
    · exact absurd hkey (hupload key file hop)
  · rcases h.db with ⟨hop, hpublished⟩ | hsame
    · refine ⟨w.server.writes q, fun wr hwr => ?_, hpublished.db⟩
      obtain ⟨e, he, rfl⟩ := List.mem_map.mp hwr
      exact hown hop e he
    · exact ⟨[], nofun, hsame⟩

/-- Closing the session of another process. -/
theorem foreign_close {q : Pid} (hq : pid ≠ q) : Foreign pid allowed frozen w (w.close q) :=
  ⟨w.server.rollback_own_of_ne hq, Function.update_of_ne hq _ _, Function.update_of_ne hq _ _,
    fun _ _ => rfl, fun _ he => he, [], nofun, rfl⟩

/-- The clock and the cache are nobody's. -/
theorem foreign_of_server_eq (hserver : w'.server = w.server) (hslot : w'.slot = w.slot)
    (hstorage : w'.storage = w.storage) (hhistory : w'.history = w.history) :
    Foreign pid allowed frozen w w' := by
  refine ⟨by rw [hserver], by rw [hserver], by rw [hslot],
    fun key _ => congrFun hstorage key, fun e he => by rwa [hhistory], [], nofun, ?_⟩
  show w'.server.committed = w.server.committed
  rw [hserver]

end

/-! ## Writes that leave a batch alone -/

/-- The write has nothing to do with batch `b`. -/
def Write.Avoids (b : BatchId) : Write → Prop
  | .insertBatch batch => batch.id ≠ b
  | .updateBatch id _ _ => id ≠ b
  | .insertReference _ rows => ∀ r ∈ rows, r.batchId ≠ b
  | .insertEmployees rows => ∀ r ∈ rows, r.batchId ≠ b

/-- As far as employees go, the write does not concern batch `b`, except that it may set its status
to one of a phase. -/
def Write.Spares (phase : IngestionBatchStatus → Prop) (b : BatchId) : Write → Prop
  | .insertBatch batch => batch.id ≠ b
  | .updateBatch id status _ => id = b → phase status
  | .insertReference .. => True
  | .insertEmployees rows => ∀ r ∈ rows, r.batchId ≠ b

/-- A write that does not touch a batch spares it. -/
theorem Write.Avoids.spares {b : BatchId} {wr : Write} (h : wr.Avoids b)
    (phase : IngestionBatchStatus → Prop) : wr.Spares phase b := by
  cases wr with
  | insertBatch batch => exact h
  | updateBatch id status errors => exact fun hid => absurd hid h
  | insertReference t rows => exact trivial
  | insertEmployees rows => exact h

/-- The employees rows of a batch. -/
def Db.rowsOf (db : Db) (b : BatchId) : List EmployeeRow :=
  db.employees.filter fun r => r.batchId = b

/-- The batch exists, with a status of the phase. -/
def Db.InPhase (db : Db) (phase : IngestionBatchStatus → Prop) (b : BatchId) : Prop :=
  ∃ batch, db.batch b = some batch ∧ phase batch.status

section Spares

variable {phase : IngestionBatchStatus → Prop} {b : BatchId} {db : Db} {wr : Write}
  {ws : List Write}

/-- A batch in a phase is there. -/
theorem Db.InPhase.mem (h : db.InPhase phase b) : Key.batch b ∈ db.keys := by
  obtain ⟨batch, hbatch, -⟩ := h
  rw [← batch_isSome_iff, hbatch]
  rfl

/-- A new batch does not change the others. -/
theorem batch_insertBatch_of_ne {batch : IngestionBatch} (h : batch.id ≠ b) :
    (db.apply (.insertBatch batch)).batch b = db.batch b := by
  simp [Db.batch, Db.apply, List.find?_append, h]

/-- A new batch can be read. -/
theorem batch_insertBatch_self {batch : IngestionBatch} (h : db.batch batch.id = none) :
    (db.apply (.insertBatch batch)).batch batch.id = some batch := by
  have hnone : db.batches.find? (fun b => b.id = batch.id) = none := h
  simp [Db.batch, Db.apply, List.find?_append, hnone]

/-- Departments and jobs do not change a batch. -/
theorem batch_insertReference (t : ReferenceTable) (rows : List ReferenceRow) :
    (db.apply (.insertReference t rows)).batch b = db.batch b := by
  rw [Db.batch, apply_insertReference_batches, ← Db.batch]

/-- New employees rows go to the end, each to those of its batch. -/
theorem rowsOf_insertEmployees (rows : List EmployeeValues) :
    (db.apply (.insertEmployees rows)).rowsOf b =
      db.rowsOf b ++ (rows.map EmployeeValues.toEmployeeRow).filter fun r => r.batchId = b :=
  List.filter_append ..

/-- A write that spares the batch adds no employees rows to it. -/
theorem rowsOf_apply_of_spares (h : wr.Spares phase b) : (db.apply wr).rowsOf b = db.rowsOf b := by
  cases wr with
  | insertBatch batch => rfl
  | updateBatch id status errors => rfl
  | insertReference t rows => rw [Db.rowsOf, apply_insertReference_employees, ← Db.rowsOf]
  | insertEmployees rows =>
      rw [rowsOf_insertEmployees, List.filter_eq_nil_iff.mpr, List.append_nil]
      exact List.forall_mem_map.mpr fun r hr => by simpa using h r hr

/-- After a write that spares it, a batch is in the phase or as it was. -/
theorem batch_apply_of_spares (h : wr.Spares phase b) {batch : IngestionBatch}
    (hbatch : (db.apply wr).batch b = some batch) :
    phase batch.status ∨ db.batch b = some batch := by
  cases wr with
  | insertBatch other =>
      rw [batch_insertBatch_of_ne h] at hbatch
      exact Or.inr hbatch
  | updateBatch id status errors =>
      by_cases hid : b = id
      · subst hid
        rw [apply_updateBatch_batch_self] at hbatch
        obtain ⟨before, -, rfl⟩ := Option.map_eq_some_iff.mp hbatch
        exact Or.inl (h rfl)
      · rw [apply_updateBatch_batch_of_ne db hid] at hbatch
        exact Or.inr hbatch
  | insertReference t rows =>
      rw [batch_insertReference] at hbatch
      exact Or.inr hbatch
  | insertEmployees rows => exact Or.inr hbatch

/-- A write that avoids a batch leaves its row as it is. -/
theorem batch_apply_of_avoids (h : wr.Avoids b) : (db.apply wr).batch b = db.batch b := by
  cases wr with
  | insertBatch batch => exact batch_insertBatch_of_ne h
  | updateBatch id status errors => exact apply_updateBatch_batch_of_ne db (Ne.symm h) _ _
  | insertReference t rows => exact batch_insertReference t rows
  | insertEmployees rows => rfl

/-- The same for any number of writes. -/
theorem rowsOf_foldl_of_spares (h : ∀ wr ∈ ws, wr.Spares phase b) :
    (ws.foldl Db.apply db).rowsOf b = db.rowsOf b := by
  induction ws generalizing db with
  | nil => rfl
  | cons wr ws ih =>
      rw [List.foldl_cons, ih fun wr' h' => h wr' (List.mem_cons_of_mem wr h'),
        rowsOf_apply_of_spares (h wr List.mem_cons_self)]

/-- After writes that spare the batch it is as before, or its status is in the phase. -/
theorem batch_foldl_of_spares (h : ∀ wr ∈ ws, wr.Spares phase b) {batch : IngestionBatch}
    (hbatch : (ws.foldl Db.apply db).batch b = some batch) :
    phase batch.status ∨ db.batch b = some batch := by
  induction ws generalizing db with
  | nil => exact Or.inr hbatch
  | cons wr ws ih =>
      rcases ih (fun wr' h' => h wr' (List.mem_cons_of_mem wr h')) hbatch with hphase | hbefore
      · exact Or.inl hphase
      · exact batch_apply_of_spares (h wr List.mem_cons_self) hbefore

/-- Writes that avoid the batch leave it as it is. -/
theorem batch_foldl_of_avoids (h : ∀ wr ∈ ws, wr.Avoids b) :
    (ws.foldl Db.apply db).batch b = db.batch b := by
  induction ws generalizing db with
  | nil => rfl
  | cons wr ws ih =>
      rw [List.foldl_cons, ih fun wr' h' => h wr' (List.mem_cons_of_mem wr h'),
        batch_apply_of_avoids (h wr List.mem_cons_self)]

/-- A key that exists stays. -/
theorem mem_keys_foldl {k : Key} (h : k ∈ db.keys) (ws : List Write) :
    k ∈ (ws.foldl Db.apply db).keys := by
  induction ws generalizing db with
  | nil => exact h
  | cons wr ws ih =>
      refine ih ?_
      rw [(keys_apply db wr).mem_iff]
      exact List.mem_append_left _ h

/-- A batch stays in its phase. -/
theorem Db.InPhase.foldl (h : db.InPhase phase b) (hws : ∀ wr ∈ ws, wr.Spares phase b) :
    (ws.foldl Db.apply db).InPhase phase b := by
  obtain ⟨after, hafter⟩ :=
    Option.isSome_iff_exists.mp ((batch_isSome_iff _).mpr (mem_keys_foldl h.mem ws))
  rcases batch_foldl_of_spares hws hafter with hphase | hbefore
  · exact ⟨after, hafter, hphase⟩
  · obtain ⟨batch, hbatch, hphase⟩ := h
    obtain rfl : batch = after := Option.some.inj (hbatch.symm.trans hbefore)
    exact ⟨batch, hafter, hphase⟩

end Spares

/-! ## Batches that do not exist -/

/-- Nothing in the database belongs to batch `u`. -/
structure Db.Vacant (db : Db) (u : BatchId) : Prop where
  batch : Key.batch u ∉ db.keys
  reference : ∀ t, ∀ r ∈ db.reference t, r.batchId ≠ u
  employees : ∀ r ∈ db.employees, r.batchId ≠ u

section Vacant

variable {db : Db} {u : BatchId} {ws : List Write}

/-- An unused batch id has no batch. -/
theorem Db.Vacant.batch_eq_none (h : db.Vacant u) : db.batch u = none := by
  rw [← Option.not_isSome_iff_eq_none, batch_isSome_iff]
  exact h.batch

/-- It has no employees rows either. -/
theorem Db.Vacant.rowsOf_eq_nil (h : db.Vacant u) : db.rowsOf u = [] :=
  List.filter_eq_nil_iff.mpr fun r hr => by simpa using h.employees r hr

/-- Only an insert under the batch makes it exist. -/
theorem Db.Vacant.apply (h : db.Vacant u) {wr : Write}
    (hwr : wr.Avoids u ∨ ∃ status errors, wr = .updateBatch u status errors) :
    (db.apply wr).Vacant u := by
  -- the id only gets used by the write itself
  have hkeys : Key.batch u ∈ (db.apply wr).keys ↔ Key.batch u ∈ wr.keys := by
    rw [(keys_apply db wr).mem_iff, List.mem_append]
    exact ⟨fun hk => hk.resolve_left h.batch, Or.inr⟩
  cases wr with
  | insertBatch batch =>
      have hne : batch.id ≠ u := hwr.resolve_right (by simp)
      refine ⟨hkeys.not.mpr ?_, fun t r hr => ?_, h.employees⟩
      · simpa [Write.keys] using hne.symm
      · rw [apply_insertBatch_reference] at hr
        exact h.reference t r hr
  | updateBatch id status errors =>
      refine ⟨hkeys.not.mpr (by simp [Write.keys]), fun t r hr => ?_, h.employees⟩
      rw [apply_updateBatch_reference] at hr
      exact h.reference t r hr
  | insertReference t rows =>
      have hrows : ∀ r ∈ rows, r.batchId ≠ u := hwr.resolve_right (by simp)
      refine ⟨hkeys.not.mpr (by simp [Write.keys]), fun t' r hr => ?_, ?_⟩
      · rw [apply_insertReference_reference] at hr
        split at hr
        · exact (List.mem_append.mp hr).elim (h.reference t' r) (hrows r)
        · rw [List.append_nil] at hr
          exact h.reference t' r hr
      · rw [apply_insertReference_employees]
        exact h.employees
  | insertEmployees rows =>
      have hrows : ∀ r ∈ rows, r.batchId ≠ u := hwr.resolve_right (by simp)
      refine ⟨hkeys.not.mpr (by simp [Write.keys]), fun t r hr => ?_, fun r hr => ?_⟩
      · rw [apply_insertEmployees_reference] at hr
        exact h.reference t r hr
      · rcases List.mem_append.mp hr with hold | hnew
        · exact h.employees r hold
        · obtain ⟨values, hvalues, rfl⟩ := List.mem_map.mp hnew
          exact hrows values hvalues

/-- A batch id stays unused while the others avoid it, or update the batch that is not there. -/
theorem Db.Vacant.foldl (h : db.Vacant u)
    (hws : ∀ wr ∈ ws, wr.Avoids u ∨ ∃ status errors, wr = .updateBatch u status errors) :
    (ws.foldl Db.apply db).Vacant u := by
  induction ws generalizing db with
  | nil => exact h
  | cons wr ws ih =>
      exact ih (h.apply (hws wr List.mem_cons_self)) fun wr' h' => hws wr' (List.mem_cons_of_mem wr h')

end Vacant

end HiringService
