import HiringService.Contracts.Ledger

/-!
# The ledger of an employees batch

The entries of the upload, the worker and the polls of a batch, whatever raises. The worker writes
the records of its file in their order, so at any time the rows of the batch are some of the records
that it has processed (`Logged`).
-/

namespace HiringService

open Effect (Program)
open Ledger (Entry)

/-- The batch exists, and its rows are some of the records `done`, in their order. -/
structure Logged (b : BatchId) (done : List EmployeeRecord) (db : Db) : Prop where
  mem : Key.batch b ∈ db.keys
  rows : (db.rowsOf b).Sublist (done.map (EmployeeRecord.toRow b))

section Logged

variable {cfg : Settings} {file : Bytes} {request : Request} {b : BatchId}
  {done done' : List EmployeeRecord} {db : Db}

/-- More records may have been tried than have been logged. -/
theorem Logged.mono (h : Logged b done db) (hdone : done.Sublist done') : Logged b done' db :=
  ⟨h.mem, h.rows.trans (hdone.map _)⟩

/-- Rows of the batch are only written by its worker. -/
theorem keep_logged (howns : request.Owns b) : (scribes cfg file request).Keep (Logged b done) := by
  refine keep_scribes fun {db ws} h hws => ⟨mem_keys_foldl h.mem ws, ?_⟩
  have hspares : ∀ wr ∈ ws, wr.Spares (fun _ => True) b := by
    intro wr hwr
    rcases hws wr hwr b howns with havoids | rfl
    · exact havoids.spares _
    · exact fun _ => trivial
  rw [rowsOf_foldl_of_spares hspares]
  exact h.rows

/-- No entry of the ledger removes a batch. -/
theorem keep_present : (scribes cfg file request).Keep fun db => Key.batch b ∈ db.keys :=
  keep_scribes fun h _ => mem_keys_foldl h _

/-- A write keeps every key. -/
theorem mem_keys_apply {k : Key} (h : k ∈ db.keys) (wr : Write) : k ∈ (db.apply wr).keys :=
  mem_keys_foldl h [wr]

/-- A committed INSERT logs its records, behind the ones before. -/
theorem Logged.insert (h : Logged b done db) (records : List EmployeeRecord) :
    Logged b (done ++ records)
      (db.apply (.insertEmployees (records.map (EmployeeRecord.values b)))) := by
  refine ⟨mem_keys_apply h.mem _, ?_⟩
  rw [rowsOf_insertEmployees, map_toEmployeeRow_values, List.map_append, List.filter_eq_self.mpr]
  · exact h.rows.append (List.Sublist.refl _)
  · intro row hrow
    obtain ⟨r, -, rfl⟩ := List.mem_map.mp hrow
    simp [EmployeeRecord.toRow]

/-- Closing the batch logs no records. -/
theorem Logged.close (h : Logged b done db) (status : IngestionBatchStatus) (errors : List String) :
    Logged b done (db.apply (.updateBatch b status errors)) :=
  ⟨mem_keys_apply h.mem _, h.rows⟩

end Logged

/-! ## The upload -/

section

variable {cfg : Settings} {file : Bytes} {pid : Pid} {w : World} {b : BatchId}

/-- The upload only signs the opening of its batch, and the batch is open once it returns. -/
theorem upload_scribes {file' : Bytes}
    (hs : Holding pid (fun db => db.Vacant b) (Writing []) w) :
    (ingestEmployees cfg b file').Ensures ((scribes cfg file (.ingestEmployees b file')).env pid)
      (fun r t => ∀ b', r = .ok b' → Logged b [] t.db) w := by
  have hkeep : (scribes cfg file (.ingestEmployees b file')).Keep fun db => db.Vacant b :=
    keep_scribes fun h hws => h.foldl fun wr hwr =>
      (hws wr hwr b rfl).imp_right fun heq => ⟨_, _, heq⟩
  have hlogged : (scribes cfg file (.ingestEmployees b file')).Keep (Logged b []) := keep_logged rfl
  have hthrow : ∀ (e : Exn) (t : World), (Program.throw e : Prog BatchId).Ensures
      ((scribes cfg file (.ingestEmployees b file')).env pid)
      (fun r t => ∀ b', r = .ok b' → Logged b [] t.db) t :=
    fun _ _ _ _ => nofun
  refine ensures_call_bind trivial (stable_holding hkeep) hs ?_
  intro t c r t' ht _ hexec
  -- the file is stored first, and the database does not notice
  obtain ⟨hdb, hown, -⟩ := exec_uploadFile hexec
  refine ⟨Or.inl hdb, ?_⟩
  cases r with
  | error e => exact hthrow e t'
  | ok _ =>
      have hheld : Holding pid (fun db => db.Vacant b) (Writing []) t' := by
        refine ⟨by rw [hdb]; exact ht.1, ?_⟩
        rw [hown]
        exact ht.2
      refine ensures_insert hkeep (addBatch_inserts b .pending) hheld (fun now t₁ h₁ _ => ?_)
        fun e t₁ _ => hthrow e t₁
      refine ensures_commit hkeep h₁ (fun _ _ _ h => h) (fun _ _ _ _ _ => trivial) (T := Unknown)
        (E := Logged b []) ?_ (fun t₂ h₂ => ?_) (fun e t₂ _ => hthrow e t₂)
        fun c f t₂ _ _ _ _ _ => hthrow f.exn t₂
      · -- the commit opens the batch, and a new batch has no rows
        intro s s' hvacant hopened
        have hdb : s'.db = s.db.apply (.insertBatch ⟨b, .pending, none, now⟩) := hopened
        have hnil : s'.db.rowsOf b = [] := by
          rw [hdb]
          exact hvacant.rowsOf_eq_nil
        refine ⟨Or.inr ⟨.opened b now, .upload, hvacant.batch, hopened, ?_⟩, ?_, ?_⟩
        · rw [Request.Sourced, hnil]
          exact List.nil_sublist _
        · rw [hdb]
          exact (keys_apply s.db _).mem_iff.mpr (List.mem_append_right _ List.mem_cons_self)
        · rw [hnil]
          exact List.nil_sublist _
      · exact Program.ensures_pure (fun hst h b' hb' => stable_db hlogged hst (h b' hb')) fun _ _ => h₂.1

/-! ## The polls -/

/-- What a poll reads in a session that has written nothing. -/
theorem exec_batchGet {c : Choice} {w' : World} {r : Except Exn (Option IngestionBatch)}
    (h : exec pid c w (.batchGet b) = some (r, w')) (hown : w.server.own pid = []) :
    Local pid w w' ∧ w'.server.own pid = [] ∧
      ∀ found, r = .ok found → found = w.db.batch b := by
  rcases exec_cases h with hattempt | ⟨f, -, rfl, rfl⟩
  · simp only [attempt] at hattempt
    split at hattempt
    · cases hattempt
      exact ⟨Local.refl w, hown, fun found hfound => by cases hfound⟩
    · cases hattempt
      refine ⟨Local.refl w, hown, fun found hfound => ?_⟩
      have hview : w.view pid = w.db := by
        rw [World.view, Txn.Server.view, Txn.Server.writes, hown]
        rfl
      rw [← Except.ok.inj hfound, hview]
  · exact ⟨local_failIf, by rw [failIf_own]; exact hown, fun found hfound => by cases hfound⟩

/-- Reading the row after a timeout enters nothing. -/
theorem uses_refreshBatch (b : BatchId) : (refreshBatch b).Uses fun op => op ≠ .commit := by
  refine Program.Uses.bind (Program.uses_request nofun) fun found => ?_
  cases found <;> trivial

/-- A poll that fails a stale batch signs that it is closed as failed, and nothing else. -/
theorem failStale_scribes
    (hs : Holding pid (fun db => Key.batch b ∈ db.keys) (Writing []) w) :
    (failStale b).Ensures ((scribes cfg file (.getBatchStatus b)).env pid) (fun _ _ => True) w := by
  refine ensures_updateStatus keep_present hs (fun db hdb => hdb) (fun t h => ?_)
    fun _ _ _ _ _ => trivial
  refine ensures_commit keep_present h (fun _ _ _ h => h) (fun _ _ _ _ _ => trivial) (T := Unknown)
    (E := fun _ => True) ?_ (fun t₁ _ => ?_) (fun _ _ _ _ _ => trivial)
    fun _ _ _ _ _ _ _ _ _ _ => trivial
  · intro s s' hmem hdb
    exact ⟨Or.inr ⟨.closed b .failed [], .timeout, hmem, hdb, trivial⟩, trivial⟩
  · exact ensures_of_uses_scribes (Program.Uses.bind (uses_refreshBatch b) fun _ => trivial)

/-- A poll signs nothing but what it commits when the batch is stale. -/
theorem getBatchStatus_scribes (hs : w.server.own pid = []) :
    (getBatchStatus cfg b).Ensures ((scribes cfg file (.getBatchStatus b)).env pid)
      (fun _ _ => True) w := by
  refine ensures_call_bind trivial (stable_holding keep_true)
    (⟨trivial, writing_nil.mpr hs⟩ : Holding pid (fun _ => True) (Writing []) w) ?_
  intro t c r t' ht _ hexec
  obtain ⟨hlocal, hown, hfound⟩ := exec_batchGet hexec (writing_nil.mp ht.2)
  refine ⟨Or.inl hlocal.db, ?_⟩
  match r with
  | .error e => exact fun _ _ => trivial
  | .ok none => exact fun _ _ => trivial
  | .ok (some batch) =>
      -- the batch that was read stays
      have hmem : Key.batch b ∈ t'.db.keys := by
        rw [show t'.db = t.db from hlocal.db, ← batch_isSome_iff, ← hfound _ rfl]
        rfl
      show (if batch.status = .pending then _ else _ : Prog BatchStatusResponse).Ensures _ _ _
      split
      · refine ensures_call_bind trivial (stable_holding keep_present)
          (⟨hmem, writing_nil.mpr hown⟩ : Holding pid (fun db => Key.batch b ∈ db.keys) (Writing []) t')
          ?_
        intro t₁ c' r' t₂ h₁ _ hnow
        have hcalled := exec_called hnow
        have hdb : t₂.db = t₁.db := hcalled.db.resolve_left fun h => nomatch h.1
        refine ⟨Or.inl hdb, ?_⟩
        cases r' with
        | error e => exact fun _ _ => trivial
        | ok now =>
            show (if isStale cfg batch.createdAt now then _ else _ : Prog _).Ensures _ _ _
            split
            · -- only a stale batch is updated
              refine failStale_scribes ⟨by rw [hdb]; exact h₁.1, writing_nil.mpr ?_⟩
              rcases hcalled.own_self with hsub | ⟨_, hop, -⟩
              · rw [writing_nil.mp h₁.2] at hsub
                exact List.sublist_nil.mp hsub
              · cases hop
            · exact fun _ _ => trivial
      · exact fun _ _ => trivial

end

/-! ## The worker -/

section Worker

variable {cfg : Settings} {file : Bytes} {pid : Pid} {w : World} {b : BatchId}
  {done : List EmployeeRecord}

/-- The environment of the worker. -/
abbrev workerEnv (cfg : Settings) (file : Bytes) (b : BatchId) (pid : Pid) :
    Effect.Env (machine pid) :=
  (scribes cfg file (.processEmployees b)).env pid

/-- What the others commit leaves the log of the batch of a worker alone. -/
theorem keep_worker : (scribes cfg file (.processEmployees b)).Keep (Logged b done) :=
  keep_logged rfl

/-- Committing rows of records that come next in the file. -/
theorem publish_rows (records : List EmployeeRecord)
    (hsub : (done ++ records).Sublist (fileRecords file)) {s s' : World} (h : Logged b done s.db)
    (hdb : s'.db =
      [Write.insertEmployees (records.map (EmployeeRecord.values b))].foldl Db.apply s.db) :
    (scribes cfg file (.processEmployees b)).guar s s' ∧ Logged b (done ++ records) s'.db := by
  have hdb' : s'.db = s.db.apply (.insertEmployees (records.map (EmployeeRecord.values b))) := hdb
  have hlogged := h.insert records
  rw [← hdb'] at hlogged
  have hwrote : s'.db = Entry.apply s.db (.wrote b records) := by
    rw [Entry.apply, ← map_toEmployeeRow_values]
    exact hdb
  refine ⟨Or.inr ⟨.wrote b records, .write ?_, h.mem, hwrote, ?_⟩, hlogged⟩
  · exact (List.sublist_append_right done records).trans hsub
  · exact hlogged.rows.trans (hsub.map _)

/-- How a part of the worker ends that has processed the records `done`; when it has raised, all
that is known is that nothing but records of the file has been written. -/
def Progress (pid : Pid) (file : Bytes) (b : BatchId) (done : List EmployeeRecord) {α : Type} :
    Except Exn α → World → Prop
  | .ok _, w => Holding pid (Logged b done) (Writing []) w
  | .error _, w => Logged b (fileRecords file) w.db

/-- What is known of the progress of a worker is out of the reach of the others. -/
theorem stable_progress {α : Type} (r : Except Exn α) :
    (workerEnv cfg file b pid).Stable (Progress pid file b done r) := by
  intro s s' hst h
  cases r with
  | ok a => exact stable_holding keep_worker hst h
  | error e => exact stable_db keep_worker hst h

/-- When the worker raises, what has been logged is from its file. -/
theorem throw_progress {α : Type} {e : Exn} (h : Logged b (fileRecords file) w.db) :
    (Program.throw e : Prog α).Ensures (workerEnv cfg file b pid) (Progress pid file b done) w :=
  Program.ensures_throw (stable_progress (.error e)) h

/-- How the `try` of a row ends: nothing is pending, or going back to the slot leaves nothing. -/
def RowTried (pid : Pid) (b : BatchId) (done : List EmployeeRecord) :
    Except Exn (List String) → World → Prop
  | .ok _, w => Holding pid (Logged b done) (Writing []) w
  | .error _, w => Holding pid (Logged b done) (Undoable []) w

/-- The body of a row signs the row if it commits. -/
theorem rowBody_scribes {errors : List String} (record : EmployeeRecord)
    (hsub : (done ++ [record]).Sublist (fileRecords file))
    (hs : Holding pid (Logged b done) (Writing []) w) :
    (do
      Uow.beginNested
      Uow.employeesAdd record b
      Uow.commit
      return errors : Prog (List String)).Ensures (workerEnv cfg file b pid)
      (RowTried pid b (done ++ [record])) w := by
  have hmore : done.Sublist (done ++ [record]) := List.sublist_append_left done [record]
  have hthrow : ∀ (e : Exn) (t : World), Holding pid (Logged b (done ++ [record])) (Undoable []) t →
      (Program.throw e : Prog (List String)).Ensures (workerEnv cfg file b pid)
        (RowTried pid b (done ++ [record])) t :=
    fun e t h => Program.ensures_throw (fun hst h => stable_holding keep_worker hst h) h
  have hearly : ∀ (e : Exn) (t : World), Holding pid (Logged b done) (Undoable []) t →
      (Program.throw e : Prog (List String)).Ensures (workerEnv cfg file b pid)
        (RowTried pid b (done ++ [record])) t :=
    fun e t h => hthrow e t (h.mono (fun _ hdb => hdb.mono hmore) fun _ _ _ h => h)
  refine ensures_beginNested keep_worker hs (fun _ _ _ h => h) (fun t₁ h₁ => ?_) fun e t _ h => ?_
  · refine ensures_insertNested keep_worker (insertEmployees_inserts _) (fun _ => rfl) h₁
      (fun t₂ h₂ _ => ?_) fun e t h _ => hearly e t h
    refine ensures_commit keep_worker h₂ (fun _ _ _ h => h.writing)
      (fun _ _ _ _ (h : Nested _ _ _ _ _) => h.undoable) (publish_rows [record] hsub)
      (fun t₃ h₃ => ?_) hearly fun c f t _ _ _ _ h => ?_
    · exact Program.ensures_pure (fun hst h => stable_holding keep_worker hst h) h₃
    · exact hthrow f.exn t (h.mono (fun _ h => h) fun _ _ _ h => undoable_nil (writing_nil.mp h))
  · exact hearly e t (h.mono (fun _ h => h) fun _ _ _ h => undoable_nil (writing_nil.mp h))

/-- A row is signed or rejected. In both cases the log is a sublist of what has been tried. -/
theorem writeRow_scribes {errors : List String} (record : EmployeeRecord)
    (hsub : (done ++ [record]).Sublist (fileRecords file))
    (hs : Holding pid (Logged b done) (Writing []) w) :
    (writeRow b errors record).Ensures (workerEnv cfg file b pid)
      (Progress pid file b (done ++ [record])) w := by
  refine Program.Ensures.tryExcept ((rowBody_scribes record hsub hs).mono fun {r t} h => ?_)
  cases r with
  | ok errors' => exact Program.ensures_pure (stable_progress (.ok errors')) h
  | error exc =>
      have hthrow : ∀ (e : Exn) (t : World), Holding pid (Logged b (done ++ [record])) Unknown t →
          (Program.throw e : Prog (List String)).Ensures (workerEnv cfg file b pid)
            (Progress pid file b (done ++ [record])) t :=
        fun e t h => throw_progress (h.1.mono hsub)
      show (if exc.isOperational = true then _ else _ : Prog (List String)).Ensures _ _ _
      by_cases hexc : exc.isOperational = true
      · rw [if_pos hexc]
        refine ensures_rollback keep_worker h (fun t₁ h₁ _ => ?_) hthrow
        obtain ⟨e, he⟩ := @raiseTranslated_eq (List String) exc
        rw [he]
        exact hthrow e t₁ (h₁.mono (fun _ h => h) fun _ _ _ _ => trivial)
      · rw [if_neg hexc]
        refine ensures_rollbackToSavepoint keep_worker h (fun _ _ _ h => h) (fun t₁ h₁ _ => ?_) hthrow
        exact Program.ensures_pure (stable_progress (.ok _)) h₁

/-- The loop over the rows, by induction on the records: each adds one to what has been tried. -/
theorem writeRowByRow_scribes (records : List EmployeeRecord)
    (hsub : (done ++ records).Sublist (fileRecords file))
    (hs : Holding pid (Logged b done) (Writing []) w) :
    (writeRowByRow b records).Ensures (workerEnv cfg file b pid)
      (Progress pid file b (done ++ records)) w := by
  refine Program.ensures_foldlM (I := fun done' (_ : List String) t =>
    Holding pid (Logged b (done ++ done')) (Writing []) t) ?_ ?_ ?_ ?_ ?_
  · exact fun _ _ _ _ hst h => stable_holding keep_worker hst h
  · intro done' record rest errors t hrecords h
    have hnext : (done ++ done' ++ [record]).Sublist (fileRecords file) := by
      refine List.Sublist.trans ?_ hsub
      rw [hrecords, List.append_assoc]
      refine (List.Sublist.refl done).append ((List.Sublist.refl done').append ?_)
      exact List.singleton_sublist.mpr List.mem_cons_self
    refine (writeRow_scribes record hnext h).mono fun {r t} h => ?_
    cases r with
    | ok errors' =>
        rw [Progress, List.append_assoc] at h
        exact h
    | error e => exact h
  · exact fun e => stable_progress (.error e)
  · exact fun h => h
  · rwa [List.append_nil]

/-- How the bulk insert of a chunk ends: its rows are committed, or the caller goes on row by
row. -/
def BulkTried (pid : Pid) (file : Bytes) (b : BatchId) (done records : List EmployeeRecord) :
    Except Exn Bool → World → Prop
  | .ok true, w => Holding pid (Logged b (done ++ records)) (Writing []) w
  | .ok false, w => Holding pid (Logged b done) (Writing []) w
  | .error _, w => Logged b (fileRecords file) w.db

/-- The state between the bulk insert and its commit is out of the reach of the others. -/
theorem stable_bulkTried (records : List EmployeeRecord) (r : Except Exn Bool) :
    (workerEnv cfg file b pid).Stable (BulkTried pid file b done records r) := by
  intro s s' hst h
  match r with
  | .ok true => exact stable_holding keep_worker hst h
  | .ok false => exact stable_holding keep_worker hst h
  | .error e => exact stable_db keep_worker hst h

/-- The handlers of the bulk insert; an exception other than an outage comes before the commit. -/
theorem bulkHandler_scribes (records : List EmployeeRecord)
    (hsub : (done ++ records).Sublist (fileRecords file)) {exc : Exn}
    (hall : Logged b (done ++ records) w.db) (hnone : exc.isOperational = false → Logged b done w.db) :
    (do
      Uow.rollback
      if exc.isOperational then raiseTranslated exc else return false : Prog Bool).Ensures
      (workerEnv cfg file b pid) (BulkTried pid file b done records) w := by
  have hthrow : ∀ (e : Exn) (t : World), Holding pid (Logged b (done ++ records)) Unknown t →
      (Program.throw e : Prog Bool).Ensures (workerEnv cfg file b pid)
        (BulkTried pid file b done records) t :=
    fun e t h => Program.ensures_throw (stable_bulkTried records (.error e)) (h.1.mono hsub)
  by_cases hexc : exc.isOperational = true
  · refine ensures_rollback keep_worker (S := Unknown) ⟨hall, trivial⟩ (fun t h _ => ?_) hthrow
    show (if exc.isOperational = true then _ else _ : Prog Bool).Ensures _ _ _
    rw [if_pos hexc]
    obtain ⟨e, he⟩ := @raiseTranslated_eq Bool exc
    rw [he]
    exact hthrow e t ⟨h.1, trivial⟩
  · have hdone := hnone (by simpa using hexc)
    refine ensures_rollback keep_worker (S := Unknown) ⟨hdone, trivial⟩ (fun t h _ => ?_)
      fun e t h => hthrow e t ⟨h.1.mono (List.sublist_append_left done records), trivial⟩
    show (if exc.isOperational = true then _ else _ : Prog Bool).Ensures _ _ _
    rw [if_neg hexc]
    exact Program.ensures_pure (stable_bulkTried records (.ok false)) h

/-- A bulk insert signs all its records or none of them. -/
theorem writeBulk_scribes (records : List EmployeeRecord)
    (hsub : (done ++ records).Sublist (fileRecords file))
    (hs : Holding pid (Logged b done) (Writing []) w) :
    (writeBulk b records).Ensures (workerEnv cfg file b pid) (BulkTried pid file b done records) w := by
  have hmore : done.Sublist (done ++ records) := List.sublist_append_left done records
  refine Program.Ensures.tryExcept ?_
  refine ensures_insert keep_worker (insertEmployees_inserts _) hs (fun _ t₁ h₁ _ => ?_)
    fun e t h => ?_
  · refine ensures_commit keep_worker h₁ (fun _ _ _ h => h) (fun _ _ _ _ _ => trivial)
      (T := Unknown) (publish_rows records hsub) (fun t₂ h₂ => ?_) (fun e t h => ?_)
      fun c f t _ _ _ he h => ?_
    · exact Program.ensures_pure (fun hst h => h.interfere hst)
        (Program.ensures_pure (stable_bulkTried records (.ok true)) h₂)
    · exact Program.ensures_throw (fun hst h => h.interfere hst)
        (bulkHandler_scribes records hsub (h.1.mono hmore) fun _ => h.1)
    · refine Program.ensures_throw (fun hst h => h.interfere hst)
        (bulkHandler_scribes records hsub h.1 fun hne => ?_)
      rw [he] at hne
      cases hne
  · exact Program.ensures_throw (fun hst h => h.interfere hst)
      (bulkHandler_scribes records hsub (h.1.mono hmore) fun _ => h.1)

/-- One chunk, in bulk or row by row. -/
theorem writeEmployees_scribes (records : List EmployeeRecord)
    (hsub : (done ++ records).Sublist (fileRecords file))
    (hs : Holding pid (Logged b done) (Writing []) w) :
    (writeEmployees b records).Ensures (workerEnv cfg file b pid)
      (Progress pid file b (done ++ records)) w := by
  refine Program.Ensures.bind ((writeBulk_scribes records hsub hs).mono fun {r t} h => ?_)
  match r with
  | .ok true => exact Program.ensures_pure (stable_progress (.ok _)) h
  | .ok false => exact writeRowByRow_scribes records hsub h
  | .error e => exact throw_progress h

/-- The chunks one after the other, by induction: together they are a sublist of the file. -/
theorem writeChunks_scribes {errors : List String} (chunks : List (List EmployeeRecord))
    (hsub : chunks.flatten.Sublist (fileRecords file))
    (hs : Holding pid (Logged b []) (Writing []) w) :
    (writeChunks b errors chunks).Ensures (workerEnv cfg file b pid)
      (Progress pid file b chunks.flatten) w := by
  refine Program.ensures_foldlM (I := fun done' (_ : List String) t =>
    Holding pid (Logged b done'.flatten) (Writing []) t) ?_ ?_ ?_ ?_ hs
  · exact fun _ _ _ _ hst h => stable_holding keep_worker hst h
  · intro done' chunk rest errors t hchunks h
    have hnext : (done'.flatten ++ chunk).Sublist (fileRecords file) := by
      refine List.Sublist.trans ?_ hsub
      rw [hchunks, List.flatten_append, List.flatten_cons]
      exact (List.Sublist.refl _).append (List.sublist_append_left _ _)
    refine Program.Ensures.bind ((writeEmployees_scribes chunk hnext h).mono fun {r t} h => ?_)
    cases r with
    | ok chunkErrors =>
        refine Program.ensures_pure (fun hst h => stable_holding keep_worker hst h) ?_
        rw [List.flatten_append, List.flatten_singleton]
        exact h
    | error e => exact Program.ensures_throw (fun hst h => stable_db keep_worker hst h) h
  · exact fun e => stable_progress (.error e)
  · exact fun h => h

/-- The records that the chunks of a file hold are records of the file. -/
theorem flatten_iterChunks_sublist {records : List EmployeeRecord} {size : ℤ}
    {chunks : List (List EmployeeRecord)} (h : iterChunks records size = .ok chunks) :
    chunks.flatten.Sublist records := by
  by_cases hsize : 0 < size
  · obtain ⟨chunks', hchunks', hflatten⟩ := iterChunks_of_pos records hsize
    obtain rfl := Except.ok.inj (h.symm.trans hchunks')
    rw [hflatten]
  · rcases size with (_ | n) | n
    · cases h
    · exact absurd (Int.natCast_pos.mpr n.succ_pos) hsize
    · obtain rfl := Except.ok.inj h
      exact List.nil_sublist records

/-- The download returns the file of the batch. -/
theorem downloadFile_scribes (hs : Holding pid (Logged b []) (Writing []) w)
    (hfile : w.storage (employeesKey cfg b) = some file) :
    (downloadFile (employeesKey cfg b)).Ensures (workerEnv cfg file b pid)
      (fun r t => Holding pid (Logged b []) (Writing []) t ∧ ∀ raw, r = .ok raw → raw = file) w := by
  have hstable : (workerEnv cfg file b pid).Stable fun t =>
      Holding pid (Logged b []) (Writing []) t ∧ t.storage (employeesKey cfg b) = some file :=
    fun hst h => ⟨stable_holding keep_worker hst h.1, (hst.storage _ ⟨b, rfl, rfl⟩).trans h.2⟩
  have hkeep : ∀ r : Except Exn Bytes, (workerEnv cfg file b pid).Stable fun t =>
      Holding pid (Logged b []) (Writing []) t ∧ ∀ raw, r = .ok raw → raw = file :=
    fun _ _ _ hst h => ⟨stable_holding keep_worker hst h.1, h.2⟩
  refine ensures_call_bind trivial hstable ⟨hs, hfile⟩ fun {t c r t'} ht _ hexec => ?_
  obtain ⟨hlocal, hown, hchunks⟩ := exec_streamFile hexec
  have hheld : Holding pid (Logged b []) (Writing []) t' :=
    ht.1.local hlocal (writing_nil.mpr (hown.trans (writing_nil.mp ht.1.2)))
  refine ⟨Or.inl hlocal.db, ?_⟩
  cases r with
  | error e => exact Program.ensures_throw (hkeep _) ⟨hheld, nofun⟩
  | ok chunks =>
      refine Program.ensures_pure (hkeep _) ⟨hheld, fun raw hraw => ?_⟩
      have hstored := hchunks chunks rfl
      rw [ht.2] at hstored
      exact (Except.ok.inj hraw).symm.trans (Option.some.inj hstored).symm

/-- From the download to the last chunk. -/
theorem ingestFile_scribes (hs : Holding pid (Logged b []) (Writing []) w)
    (hfile : w.storage (employeesKey cfg b) = some file) :
    (ingestFile b cfg).Ensures (workerEnv cfg file b pid)
      (Progress pid file b (fileRecords file)) w := by
  have hthrow : ∀ (e : Exn) (t : World), Holding pid (Logged b []) (Writing []) t →
      (Program.throw e : Prog (List String)).Ensures (workerEnv cfg file b pid)
        (Progress pid file b (fileRecords file)) t :=
    fun e t h => throw_progress (h.1.mono (List.nil_sublist _))
  refine Program.Ensures.bind ((downloadFile_scribes hs hfile).mono fun {r t} h => ?_)
  cases r with
  | error e => exact hthrow e t h.1
  | ok raw =>
      obtain rfl := h.2 raw rfl
      show ((Program.lift (parseEmployees raw)).bind _ : Prog (List String)).Ensures _ _ _
      rcases hparse : parseEmployees raw with e | ⟨records, parseErrors⟩
      · exact hthrow e t h.1
      -- what is downloaded is what was uploaded, so the records are those of the file
      have hrecords : fileRecords raw = records := by
        rw [fileRecords, hparse]
      show ((Program.lift (iterChunks records cfg.employeeChunkSize)).bind _ :
        Prog (List String)).Ensures _ _ _
      rcases hchunks : iterChunks records cfg.employeeChunkSize with e | chunks
      · exact hthrow e t h.1
      have hsub : chunks.flatten.Sublist (fileRecords raw) := by
        rw [hrecords]
        exact flatten_iterChunks_sublist hchunks
      refine (writeChunks_scribes chunks hsub h.1).mono fun {r t} h => ?_
      cases r with
      | ok errors => exact h.mono (fun _ hdb => hdb.mono hsub) fun _ _ _ h => h
      | error e => exact h

/-- The commit that closes the batch. -/
theorem publish_closed {status : IngestionBatchStatus} {errors : List String}
    (hmakes : Request.Makes file (.processEmployees b) (.closed b status errors)) {s s' : World}
    (h : Logged b (fileRecords file) s.db)
    (hdb : s'.db = [Write.updateBatch b status errors].foldl Db.apply s.db) :
    (scribes cfg file (.processEmployees b)).guar s s' ∧ Logged b (fileRecords file) s'.db := by
  have hdb' : s'.db = s.db.apply (.updateBatch b status errors) := hdb
  have hlogged := h.close status errors
  rw [← hdb'] at hlogged
  exact ⟨Or.inr ⟨_, hmakes, h.mem, hdb', hlogged.rows⟩, hlogged⟩

/-- An update of the batch that is committed, wherever it raises. -/
theorem closeBatch_scribes {status : IngestionBatchStatus} {errors : Option (List String)}
    (hmakes : Request.Makes file (.processEmployees b) (.closed b status (errors.getD [])))
    (hs : Holding pid (Logged b (fileRecords file)) (Writing []) w) :
    (do
      Uow.updateStatus b status errors
      Uow.commit : Prog Unit).Ensures (workerEnv cfg file b pid)
      (fun _ t => Logged b (fileRecords file) t.db) w := by
  have hthrow : ∀ (e : Exn) (t : World), Holding pid (Logged b (fileRecords file)) Unknown t →
      (Program.throw e : Prog Unit).Ensures (workerEnv cfg file b pid)
        (fun _ t => Logged b (fileRecords file) t.db) t :=
    fun e t h => Program.ensures_throw (stable_db keep_worker) h.1
  refine ensures_updateStatus keep_worker hs (fun db hdb => hdb.mem) (fun t h => ?_) hthrow
  refine ensures_of_bind_pure (ensures_commit keep_worker h (fun _ _ _ h => h)
    (fun _ _ _ _ _ => trivial) (publish_closed hmakes) (fun t h => ?_) hthrow
    fun c f t _ _ _ _ h => hthrow f.exn t ⟨h.1, trivial⟩)
  exact Program.ensures_pure (stable_db keep_worker) h.1

/-- `_process`, with the closing of the batch. -/
theorem process_scribes (hs : Holding pid (Logged b []) (Writing []) w)
    (hfile : w.storage (employeesKey cfg b) = some file) :
    (process b cfg).Ensures (workerEnv cfg file b pid)
      (fun _ t => Logged b (fileRecords file) t.db) w := by
  refine Program.Ensures.bind ((ingestFile_scribes hs hfile).mono fun {r t} h => ?_)
  cases r with
  | error e => exact Program.ensures_throw (stable_db keep_worker) h
  | ok errors =>
      refine Program.Ensures.bind ((closeBatch_scribes .complete h).mono fun {r t} h => ?_)
      cases r with
      | error e => exact Program.ensures_throw (stable_db keep_worker) h
      | ok _ =>
          refine ensures_of_bind_pure (ensures_call_bind trivial (stable_db keep_worker) h
            fun {t c r t'} h _ hexec => ?_)
          have hdb := (exec_cacheDelete hexec).1
          refine ⟨Or.inl hdb, ?_⟩
          cases r with
          | ok _ => exact Program.ensures_pure (stable_db keep_worker) (by rw [hdb]; exact h)
          | error e => exact Program.ensures_throw (stable_db keep_worker) (by rw [hdb]; exact h)

/-- The handler signs that the batch is closed as failed, and nothing else. -/
theorem markBatchFailed_scribes (hs : Logged b (fileRecords file) w.db) :
    (markBatchFailed b).Ensures (workerEnv cfg file b pid)
      (fun _ t => Logged b (fileRecords file) t.db) w := by
  have hthrow : ∀ (e : Exn) (t : World), Holding pid (Logged b (fileRecords file)) Unknown t →
      (Program.throw e : Prog Unit).Ensures (workerEnv cfg file b pid)
        (fun _ t => Logged b (fileRecords file) t.db) t :=
    fun e t h => Program.ensures_throw (stable_db keep_worker) h.1
  have hbody : (do
      Uow.rollback
      Uow.updateStatus b .failed none
      Uow.commit : Prog Unit).Ensures (workerEnv cfg file b pid)
      (fun _ t => Logged b (fileRecords file) t.db) w :=
    ensures_rollback keep_worker (S := Unknown) ⟨hs, trivial⟩
      (fun t h _ => closeBatch_scribes .fail h) hthrow
  refine Program.Ensures.tryExcept (hbody.mono fun {r t} h => ?_)
  cases r with
  | ok _ => exact Program.ensures_pure (stable_db keep_worker) h
  | error e =>
      refine ensures_of_bind_pure (ensures_rollback keep_worker (S := Unknown) ⟨h, trivial⟩
        (fun t₁ h₁ _ => ?_) hthrow)
      exact Program.ensures_pure (stable_db keep_worker) h₁.1

/-- Whatever raises, the worker writes records of its file and closes its batch. -/
theorem streamAndProcess_scribes (hs : Holding pid (Logged b []) (Writing []) w)
    (hfile : w.storage (employeesKey cfg b) = some file) :
    (streamAndProcess b cfg).Ensures (workerEnv cfg file b pid) (fun _ _ => True) w := by
  refine Program.Ensures.tryExcept ((process_scribes hs hfile).mono fun {r t} h => ?_)
  cases r with
  | ok _ => exact fun _ _ => trivial
  | error e =>
      refine Program.Ensures.bind ((markBatchFailed_scribes h).mono fun {r t} _ => ?_)
      cases r <;> exact fun _ _ => trivial

end Worker

end HiringService
