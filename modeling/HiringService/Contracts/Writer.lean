import HiringService.Contracts.Session

/-!
# The employees writer under faults and interference

Whatever raises and whatever other transactions commit, as long as they spare the batch: when
`write_employees` returns, each of its records either has its row committed or its entry in the
errors, and nothing is left pending. When it raises, the batch still has the status that it had.

A row that fails is undone by going back to the handle in the slot. That handle is the savepoint of
the row, or nothing is pending (`Undoable`), so no row of an earlier record is lost.
-/

namespace HiringService

open Effect (Env Program)

/-! ## What has been written -/

/-- The records that have a row. -/
def acceptedOf (tagged : List (EmployeeRecord × Bool)) : List EmployeeRecord :=
  (tagged.filter fun r => r.2).map Prod.fst

/-- The records that have an error entry. -/
def rejectedOf (tagged : List (EmployeeRecord × Bool)) : List EmployeeRecord :=
  (tagged.filter fun r => !r.2).map Prod.fst

/-- The records that were accepted, in two parts. -/
@[simp] theorem acceptedOf_append (xs ys : List (EmployeeRecord × Bool)) :
    acceptedOf (xs ++ ys) = acceptedOf xs ++ acceptedOf ys := by simp [acceptedOf]

/-- The records that were rejected, in two parts. -/
@[simp] theorem rejectedOf_append (xs ys : List (EmployeeRecord × Bool)) :
    rejectedOf (xs ++ ys) = rejectedOf xs ++ rejectedOf ys := by simp [rejectedOf]

/-- A bulk insert that goes through accepts everything. -/
@[simp] theorem acceptedOf_map_true (records : List EmployeeRecord) :
    acceptedOf (records.map fun r => (r, true)) = records := by
  simp [acceptedOf, List.filter_map, Function.comp_def]

/-- It rejects nothing. -/
@[simp] theorem rejectedOf_map_true (records : List EmployeeRecord) :
    rejectedOf (records.map fun r => (r, true)) = [] := by
  simp [rejectedOf, List.filter_map, Function.comp_def]

/-- Every record is accepted or rejected, and none is both. -/
theorem length_acceptedOf_add_length_rejectedOf (tagged : List (EmployeeRecord × Bool)) :
    (acceptedOf tagged).length + (rejectedOf tagged).length = tagged.length := by
  induction tagged with
  | nil => rfl
  | cons r rs ih =>
      rcases r with ⟨record, _ | _⟩ <;>
      · simp only [acceptedOf, rejectedOf, List.length_map] at ih ⊢
        simp only [List.filter_cons, Bool.not_true, Bool.not_false, if_true, Bool.false_eq_true,
          if_false, List.length_cons]
        omega

/-- The batch is in its phase and, of the records `tagged`, those that are marked have their rows
behind the rows `base`, which the batch had before. -/
structure Written (phase : IngestionBatchStatus → Prop) (b : BatchId) (base : List EmployeeRow)
    (tagged : List (EmployeeRecord × Bool)) (db : Db) : Prop where
  inPhase : db.InPhase phase b
  rows : db.rowsOf b = base ++ (acceptedOf tagged).map (EmployeeRecord.toRow b)

section Db

variable {phase : IngestionBatchStatus → Prop} {b : BatchId} {base : List EmployeeRow}
  {tagged : List (EmployeeRecord × Bool)} {db : Db} {ws : List Write}

/-- What a worker has written stays written, whatever the others commit. -/
theorem Written.foldl (h : Written phase b base tagged db) (hws : ∀ wr ∈ ws, wr.Spares phase b) :
    Written phase b base tagged (ws.foldl Db.apply db) :=
  ⟨h.inPhase.foldl hws, (rowsOf_foldl_of_spares hws).trans h.rows⟩

/-- Committing the rows of records of the batch. -/
theorem Written.insert (h : Written phase b base tagged db) (records : List EmployeeRecord) :
    Written phase b base (tagged ++ records.map fun r => (r, true))
      (db.apply (.insertEmployees (records.map (EmployeeRecord.values b)))) := by
  refine ⟨h.inPhase, ?_⟩
  rw [rowsOf_insertEmployees, map_toEmployeeRow_values, h.rows, acceptedOf_append,
    acceptedOf_map_true, List.map_append, List.append_assoc, List.filter_eq_self.mpr]
  intro row hrow
  obtain ⟨r, -, rfl⟩ := List.mem_map.mp hrow
  simp [EmployeeRecord.toRow]

/-- A rejected record adds no row. -/
theorem Written.reject (h : Written phase b base tagged db) (record : EmployeeRecord) :
    Written phase b base (tagged ++ [(record, false)]) db :=
  ⟨h.inPhase, by rw [h.rows, acceptedOf_append]; simp [acceptedOf]⟩

end Db

/-! ## The neighbours of a writer -/

/-- The neighbours spare batch `b`, and accept every step that leaves its row alone. -/
structure Neighbours.Spare (N : Neighbours) (phase : IngestionBatchStatus → Prop) (b : BatchId) :
    Prop where
  spares : ∀ wr, N.allowed wr → wr.Spares phase b
  guar : ∀ {w w' : World}, w'.db.InPhase phase b → w'.db.batch b = w.db.batch b → N.guar w w'

section Writer

variable {pid : Pid} {N : Neighbours} {phase : IngestionBatchStatus → Prop} {b : BatchId}
  {w : World} {base : List EmployeeRow} {tagged : List (EmployeeRecord × Bool)}
  {errors : List String}

/-- The others keep what has been written. -/
theorem Neighbours.Spare.keep_written (hN : N.Spare phase b) :
    N.Keep (Written phase b base tagged) where
  foldl h hws := h.foldl fun wr hwr => hN.spares wr (hws wr hwr)
  same h hdb := hN.guar (by rw [hdb]; exact h.inPhase) (by rw [hdb])

/-- The others keep the batch in its phase. -/
theorem Neighbours.Spare.keep_inPhase (hN : N.Spare phase b) :
    N.Keep fun db => db.InPhase phase b where
  foldl h hws := h.foldl fun wr hwr => hN.spares wr (hws wr hwr)
  same h hdb := hN.guar (by rw [hdb]; exact h) (by rw [hdb])

/-- Committing rows of the batch is accepted. -/
theorem Neighbours.Spare.publish (hN : N.Spare phase b) (records : List EmployeeRecord)
    {t t' : World} (h : Written phase b base tagged t.db) (hdb : t'.db =
      [Write.insertEmployees (records.map (EmployeeRecord.values b))].foldl Db.apply t.db) :
    N.guar t t' ∧ Written phase b base (tagged ++ records.map fun r => (r, true)) t'.db := by
  have hwritten := h.insert records
  rw [show t'.db = _ from hdb]
  refine ⟨hN.guar ?_ ?_, hwritten⟩
  · rw [hdb]
    exact hwritten.inPhase
  · rw [hdb]
    rfl

/-! ## Row by row -/

/-- How a writer ends: each of its records has its row or its entry, or it raised. -/
def Wrote (pid : Pid) (phase : IngestionBatchStatus → Prop) (b : BatchId) (base : List EmployeeRow)
    (tagged : List (EmployeeRecord × Bool)) (errors : List String) (records : List EmployeeRecord) :
    Except Exn (List String) → World → Prop
  | .ok errors', w => ∃ new : List (EmployeeRecord × Bool), new.map Prod.fst = records ∧
      errors' = errors ++ (rejectedOf new).map EmployeeRecord.entry ∧
      Holding pid (Written phase b base (tagged ++ new)) (Writing []) w
  | .error _, w => w.db.InPhase phase b

/-- What the writer has done is out of the reach of the others. -/
theorem stable_wrote (hN : N.Spare phase b) (records : List EmployeeRecord)
    (r : Except Exn (List String)) :
    (N.env pid).Stable (Wrote pid phase b base tagged errors records r) := by
  intro s t hst h
  cases r with
  | ok errors' =>
      obtain ⟨new, hnew, herrors, hholding⟩ := h
      exact ⟨new, hnew, herrors, stable_holding hN.keep_written hst hholding⟩
  | error e => exact stable_db hN.keep_inPhase hst h

/-- An exception that leaves the batch in its phase is an end of the writer. -/
theorem ensures_throw_wrote (hN : N.Spare phase b) {records : List EmployeeRecord} {e : Exn}
    (h : w.db.InPhase phase b) : (Program.throw e : Prog (List String)).Ensures (N.env pid)
      (Wrote pid phase b base tagged errors records) w :=
  Program.ensures_throw (stable_wrote hN records _) h

/-- The state in which a handler of the writer gets the exception `e`: only an `OperationalError`
may come after rows have been committed. -/
def Raised (pid : Pid) (phase : IngestionBatchStatus → Prop) (b : BatchId) (base : List EmployeeRow)
    (tagged : List (EmployeeRecord × Bool)) (S : SessionPred) (e : Exn) (w : World) : Prop :=
  w.db.InPhase phase b ∧
    (e.isOperational = false → Holding pid (Written phase b base tagged) S w)

/-- So is what is left when it raises. -/
theorem stable_raised (hN : N.Spare phase b) {S : SessionPred} {e : Exn} :
    (N.env pid).Stable (Raised pid phase b base tagged S e) :=
  fun hst h => ⟨stable_db hN.keep_inPhase hst h.1,
    fun he => stable_holding hN.keep_written hst (h.2 he)⟩

/-- Raising changes nothing. -/
theorem Holding.raised {S : SessionPred} (h : Holding pid (Written phase b base tagged) S w)
    (e : Exn) : Raised pid phase b base tagged S e w :=
  ⟨h.1.inPhase, fun _ => h⟩

/-- A commit that raises `e` although it has taken effect. -/
theorem raised_of_lost {tagged' : List (EmployeeRecord × Bool)} {S S' : SessionPred} {e : Exn}
    (he : e.isOperational = true) (h : Holding pid (Written phase b base tagged') S w) :
    Raised pid phase b base tagged S' e w :=
  ⟨h.1.inPhase, fun hne => by rw [he] at hne; cases hne⟩

/-- How the `try` of a row ends. -/
def RowDone (pid : Pid) (phase : IngestionBatchStatus → Prop) (b : BatchId)
    (base : List EmployeeRow) (tagged : List (EmployeeRecord × Bool)) (errors : List String)
    (record : EmployeeRecord) : Except Exn (List String) → World → Prop
  | .ok errors', w => errors' = errors ∧
      Holding pid (Written phase b base (tagged ++ [(record, true)])) (Writing []) w
  | .error e, w => Raised pid phase b base tagged (Undoable []) e w

/-- The row of a record, from its savepoint to its commit. -/
theorem ensures_rowBody (hN : N.Spare phase b) (record : EmployeeRecord)
    (hs : Holding pid (Written phase b base tagged) (Writing []) w) :
    (do
      Uow.beginNested
      Uow.employeesAdd record b
      Uow.commit
      return errors : Prog (List String)).Ensures (N.env pid)
      (RowDone pid phase b base tagged errors record) w := by
  have hthrow : ∀ (e : Exn) (t : World), Raised pid phase b base tagged (Undoable []) e t →
      (Program.throw e : Prog (List String)).Ensures (N.env pid)
        (RowDone pid phase b base tagged errors record) t :=
    fun e t h => Program.ensures_throw (fun hst h => stable_raised hN hst h) h
  refine ensures_beginNested hN.keep_written hs (fun _ _ _ h => h) (fun t₁ h₁ => ?_)
    fun e t _ h => hthrow e t ((h.mono (fun _ hdb => hdb) ?_).raised e)
  · refine ensures_insertNested hN.keep_written (insertEmployees_inserts _) (fun _ => rfl) h₁
      (fun t₂ h₂ _ => ?_) fun e t h _ => hthrow e t (h.raised e)
    refine ensures_commit hN.keep_written h₂ (fun _ _ _ h => h.writing)
      (fun _ _ _ _ (h : Nested _ _ _ _ _) => h.undoable) (hN.publish [record]) ?_ ?_ ?_
    · intro t₃ h₃
      exact Program.ensures_pure
        (fun hst h => ⟨h.1, stable_holding hN.keep_written hst h.2⟩) ⟨rfl, h₃⟩
    · exact fun e t h => hthrow e t (h.raised e)
    · exact fun c f t _ _ _ he h => hthrow f.exn t (raised_of_lost he h)
  · exact fun own s slot hnil => undoable_nil (writing_nil.mp hnil)

/-- One record, whatever happens to its calls. -/
theorem ensures_writeRow (hN : N.Spare phase b) (record : EmployeeRecord)
    (hs : Holding pid (Written phase b base tagged) (Writing []) w) :
    (writeRow b errors record).Ensures (N.env pid)
      (Wrote pid phase b base tagged errors [record]) w := by
  refine Program.Ensures.tryExcept ((ensures_rowBody hN record hs).mono ?_)
  intro r t h
  cases r with
  | ok errors' =>
      obtain ⟨rfl, h⟩ := h
      refine Program.ensures_pure (stable_wrote hN _ _) ⟨[(record, true)], rfl, ?_, h⟩
      simp [rejectedOf]
  | error exc =>
      show (if exc.isOperational = true then _ else _ : Prog (List String)).Ensures _ _ _
      by_cases hexc : exc.isOperational = true
      · rw [if_pos hexc]
        refine ensures_rollback hN.keep_inPhase (S := Unknown) ⟨h.1, trivial⟩ (fun t₁ h₁ _ => ?_)
          fun e t₁ h₁ => ensures_throw_wrote hN h₁.1
        obtain ⟨e, he⟩ := @raiseTranslated_eq (List String) exc
        rw [he]
        exact ensures_throw_wrote hN h₁.1
      · rw [if_neg hexc]
        refine ensures_rollbackToSavepoint hN.keep_written (h.2 (by simpa using hexc))
          (fun _ _ _ h => h) (fun t₁ h₁ _ => ?_) fun e t₁ h₁ => ensures_throw_wrote hN h₁.1.inPhase
        refine Program.ensures_pure (stable_wrote hN _ _) ⟨[(record, false)], rfl, ?_, ?_⟩
        · simp [rejectedOf]
        · exact h₁.mono (fun _ hdb => hdb.reject record) fun _ _ _ h => h

/-- A loop of writers is a writer. -/
theorem ensures_foldlM_wrote (hN : N.Spare phase b) {α : Type}
    {f : List String → α → Prog (List String)} (recordsOf : α → List EmployeeRecord)
    (hf : ∀ {w tagged errors} x, Holding pid (Written phase b base tagged) (Writing []) w →
      (f errors x).Ensures (N.env pid) (Wrote pid phase b base tagged errors (recordsOf x)) w)
    (xs : List α) (errors : List String)
    (hs : Holding pid (Written phase b base tagged) (Writing []) w) :
    (xs.foldlM f errors).Ensures (N.env pid)
      (Wrote pid phase b base tagged errors (xs.flatMap recordsOf)) w := by
  induction xs generalizing w tagged errors with
  | nil =>
      refine Program.ensures_pure (stable_wrote hN _ _) ⟨[], rfl, by simp [rejectedOf], ?_⟩
      rwa [List.append_nil]
  | cons x xs ih =>
      rw [List.foldlM_cons]
      refine Program.Ensures.bind ((hf x hs).mono ?_)
      intro r t h
      cases r with
      | error e => exact ensures_throw_wrote hN h
      | ok errors₁ =>
          obtain ⟨new₁, hnew₁, rfl, h₁⟩ := h
          refine (ih _ h₁).mono ?_
          intro r t h
          cases r with
          | error e => exact h
          | ok errors₂ =>
              obtain ⟨new₂, hnew₂, rfl, h₂⟩ := h
              -- the parts are put together in their order
              refine ⟨new₁ ++ new₂, ?_, ?_, ?_⟩
              · rw [List.map_append, hnew₁, hnew₂, List.flatMap_cons]
              · rw [rejectedOf_append, List.map_append, List.append_assoc]
              · rwa [← List.append_assoc]

/-- The rows one after the other, by induction on the records. -/
theorem ensures_writeRowByRow (hN : N.Spare phase b) (records : List EmployeeRecord)
    (hs : Holding pid (Written phase b base tagged) (Writing []) w) :
    (writeRowByRow b records).Ensures (N.env pid)
      (Wrote pid phase b base tagged [] records) w := by
  have hloop := ensures_foldlM_wrote hN (fun r => [r])
    (fun record hs => ensures_writeRow hN record hs) records [] hs
  rwa [List.flatMap_singleton'] at hloop

/-! ## In bulk -/

/-- How the bulk insert ends: all the rows are committed, or none is and nothing is pending. -/
def Bulked (pid : Pid) (phase : IngestionBatchStatus → Prop) (b : BatchId) (base : List EmployeeRow)
    (tagged : List (EmployeeRecord × Bool)) (records : List EmployeeRecord) :
    Except Exn Bool → World → Prop
  | .ok true, w => Holding pid (Written phase b base (tagged ++ records.map fun r => (r, true)))
      (Writing []) w
  | .ok false, w => Holding pid (Written phase b base tagged) (Writing []) w
  | .error _, w => w.db.InPhase phase b

/-- The outcome of a bulk insert is out of the reach of the others. -/
theorem stable_bulked (hN : N.Spare phase b) (records : List EmployeeRecord) (r : Except Exn Bool) :
    (N.env pid).Stable (Bulked pid phase b base tagged records r) := by
  intro s t hst h
  match r with
  | .ok true => exact stable_holding hN.keep_written hst h
  | .ok false => exact stable_holding hN.keep_written hst h
  | .error e => exact stable_db hN.keep_inPhase hst h

/-- How the `try` of the bulk insert ends. -/
def BulkDone (pid : Pid) (phase : IngestionBatchStatus → Prop) (b : BatchId)
    (base : List EmployeeRow) (tagged : List (EmployeeRecord × Bool))
    (records : List EmployeeRecord) : Except Exn Bool → World → Prop
  | .ok done, w => Bulked pid phase b base tagged records (.ok done) w
  | .error e, w => Raised pid phase b base tagged Unknown e w

/-- The body of the bulk insert: all records are committed, or nothing is. -/
theorem ensures_bulkBody (hN : N.Spare phase b) (records : List EmployeeRecord)
    (hs : Holding pid (Written phase b base tagged) (Writing []) w) :
    (do
      Uow.employeesBulkInsert records b
      Uow.commit
      return true : Prog Bool).Ensures (N.env pid) (BulkDone pid phase b base tagged records) w := by
  have hthrow : ∀ (e : Exn) (t : World), Raised pid phase b base tagged Unknown e t →
      (Program.throw e : Prog Bool).Ensures (N.env pid)
        (BulkDone pid phase b base tagged records) t :=
    fun e t h => Program.ensures_throw (fun hst h => stable_raised hN hst h) h
  refine ensures_insert hN.keep_written (insertEmployees_inserts _) hs (fun _ t₁ h₁ _ => ?_)
    fun e t h => hthrow e t (h.raised e)
  refine ensures_commit hN.keep_written h₁ (fun _ _ _ h => h) (fun _ _ _ _ _ => trivial)
    (hN.publish records) (fun t₂ h₂ => ?_) (fun e t h => hthrow e t (h.raised e))
    fun c f t _ _ _ he h => hthrow f.exn t (raised_of_lost he h)
  exact Program.ensures_pure (stable_bulked hN records (.ok true)) h₂

/-- The bulk insert with its handler. It ends with nothing pending, unless the rollback raises. -/
theorem ensures_writeBulk (hN : N.Spare phase b) (records : List EmployeeRecord)
    (hs : Holding pid (Written phase b base tagged) (Writing []) w) :
    (writeBulk b records).Ensures (N.env pid) (Bulked pid phase b base tagged records) w := by
  have hthrow : ∀ (e : Exn) (t : World), t.db.InPhase phase b →
      (Program.throw e : Prog Bool).Ensures (N.env pid) (Bulked pid phase b base tagged records) t :=
    fun e t h => Program.ensures_throw (stable_bulked hN records (.error e)) h
  refine Program.Ensures.tryExcept ((ensures_bulkBody hN records hs).mono ?_)
  intro r t h
  cases r with
  | ok done => exact Program.ensures_pure (stable_bulked hN records _) h
  | error exc =>
      by_cases hexc : exc.isOperational = true
      · refine ensures_rollback hN.keep_inPhase (S := Unknown) ⟨h.1, trivial⟩ (fun t₁ h₁ _ => ?_)
          fun e t₁ h₁ => hthrow e t₁ h₁.1
        show (if exc.isOperational = true then _ else _ : Prog Bool).Ensures _ _ _
        rw [if_pos hexc]
        obtain ⟨e, he⟩ := @raiseTranslated_eq Bool exc
        rw [he]
        exact hthrow e t₁ h₁.1
      · refine ensures_rollback hN.keep_written (h.2 (by simpa using hexc)) (fun t₁ h₁ _ => ?_)
          fun e t₁ h₁ => hthrow e t₁ h₁.1.inPhase
        show (if exc.isOperational = true then _ else _ : Prog Bool).Ensures _ _ _
        rw [if_neg hexc]
        exact Program.ensures_pure (stable_bulked hN records (.ok false)) h₁

/-! ## All the records -/

/-- `write_employees` is a writer. -/
theorem ensures_writeEmployees (hN : N.Spare phase b) (records : List EmployeeRecord)
    (hs : Holding pid (Written phase b base tagged) (Writing []) w) :
    (writeEmployees b records).Ensures (N.env pid)
      (Wrote pid phase b base tagged [] records) w := by
  refine Program.Ensures.bind ((ensures_writeBulk hN records hs).mono ?_)
  intro r t h
  match r with
  | .ok true =>
      refine Program.ensures_pure (stable_wrote hN _ _) ⟨records.map fun r => (r, true), ?_, ?_, h⟩
      · simp [Function.comp_def]
      · simp
  | .ok false => exact ensures_writeRowByRow hN records h
  | .error e => exact ensures_throw_wrote hN h

/-- The chunk loop is a writer. -/
theorem ensures_writeChunks (hN : N.Spare phase b) (chunks : List (List EmployeeRecord))
    (hs : Holding pid (Written phase b base tagged) (Writing []) w) :
    (writeChunks b errors chunks).Ensures (N.env pid)
      (Wrote pid phase b base tagged errors chunks.flatten) w := by
  rw [← List.flatMap_id]
  refine ensures_foldlM_wrote hN id (fun chunk hs => ?_) chunks errors hs
  refine Program.Ensures.bind ((ensures_writeEmployees hN chunk hs).mono ?_)
  intro r t h
  cases r with
  | error e => exact ensures_throw_wrote hN h
  | ok chunkErrors =>
      obtain ⟨new, hnew, rfl, hholding⟩ := h
      exact Program.ensures_pure (stable_wrote hN _ _) ⟨new, hnew, rfl, hholding⟩

end Writer

end HiringService
