import HiringService.Contracts.Writer

/-!
# The worker under faults and interference

What the run of a worker leaves behind in its batch: when `_process` has returned, the batch is
completed with the errors of its file (`Accounted`), and the records without an entry have their
rows. An exception leaves the batch as it was, or it came after the batch was completed, and then
`mark_batch_failed` may set it to failed.
-/

namespace HiringService

open Effect (Env Program)

/-! ## A batch that is accounted for -/

/-- The batch owns the rows `rows` and is completed with `errors`, unless its status is one of the
phase, to which others may set it. -/
structure Recorded (phase : IngestionBatchStatus → Prop) (b : BatchId) (errors : List String)
    (rows : List EmployeeRow) (db : Db) : Prop where
  mem : Key.batch b ∈ db.keys
  rowsOf : db.rowsOf b = rows
  status : ∀ batch, db.batch b = some batch →
    phase batch.status ∨ (batch.status = .completed ∧ batch.errors = some errors)

/-- The batch is completed with the errors of the stored file, cut into chunks of `size` records,
and owns the rows of the other records behind the rows `base`. -/
def Accounted (phase : IngestionBatchStatus → Prop) (b : BatchId) (size : ℤ) (stored : Option Bytes)
    (base : List EmployeeRow) (db : Db) : Prop :=
  ∃ file records parseErrors chunks, ∃ new : List (EmployeeRecord × Bool), stored = some file ∧
    parseEmployees file = .ok (records, parseErrors) ∧ iterChunks records size = .ok chunks ∧
    new.map Prod.fst = chunks.flatten ∧
    Recorded phase b (parseErrors ++ (rejectedOf new).map EmployeeRecord.entry)
      (base ++ (acceptedOf new).map (EmployeeRecord.toRow b)) db

section Db

variable {phase phase' : IngestionBatchStatus → Prop} {b : BatchId} {errors : List String}
  {rows base : List EmployeeRow} {db : Db} {ws : List Write} {size : ℤ} {stored : Option Bytes}
  {tagged : List (EmployeeRecord × Bool)}

/-- What is recorded of a batch stays, whatever the others commit. -/
theorem Recorded.foldl (h : Recorded phase b errors rows db) (hws : ∀ wr ∈ ws, wr.Spares phase b) :
    Recorded phase b errors rows (ws.foldl Db.apply db) where
  mem := mem_keys_foldl h.mem ws
  rowsOf := (rowsOf_foldl_of_spares hws).trans h.rowsOf
  status batch hbatch := by
    rcases batch_foldl_of_spares hws hbatch with hphase | hbefore
    · exact Or.inl hphase
    · exact h.status batch hbefore

/-- A phase may be widened. -/
theorem Recorded.mono (h : Recorded phase b errors rows db)
    (himp : ∀ status, phase status → phase' status) : Recorded phase' b errors rows db :=
  ⟨h.mem, h.rowsOf, fun batch hbatch => (h.status batch hbatch).imp_left (himp _)⟩

/-- Completing a batch whose rows have been written. -/
theorem Written.complete (h : Written phase b base tagged db) (errors : List String) :
    Recorded phase' b errors (base ++ (acceptedOf tagged).map (EmployeeRecord.toRow b))
      (db.apply (.updateBatch b .completed errors)) where
  mem := mem_keys_foldl h.inPhase.mem [.updateBatch b .completed errors]
  rowsOf := h.rows
  status batch hbatch := by
    rw [apply_updateBatch_batch_self] at hbatch
    obtain ⟨before, -, rfl⟩ := Option.map_eq_some_iff.mp hbatch
    exact Or.inr ⟨rfl, rfl⟩

/-- The account of a file goes along with what is recorded of the batch. -/
theorem Accounted.map {db' : Db} (h : Accounted phase b size stored base db)
    (hrecorded : ∀ errors rows, Recorded phase b errors rows db → Recorded phase' b errors rows db') :
    Accounted phase' b size stored base db' := by
  obtain ⟨file, records, parseErrors, chunks, new, hfile, hparse, hchunks, hnew, h⟩ := h
  exact ⟨file, records, parseErrors, chunks, new, hfile, hparse, hchunks, hnew, hrecorded _ _ h⟩

end Db

/-- The calls of the environment that are known not to go wrong halfway: no commit raises after it
has taken effect, and no deletion from the cache raises. -/
structure Reliable (may : Choice → Op → Prop) : Prop where
  commit : ∀ c f, may c .commit → c.fault = some f → f.exn.isOperational = true →
    f.effective = false
  cacheDelete : ∀ c keys, may c (.cacheDelete keys) → c.fault = none

/-- What is left of a batch by a worker that has raised: the batch is as it was, or its completion
was committed and something went wrong after that. -/
def Aborted (may : Choice → Op → Prop) (phase phase' : IngestionBatchStatus → Prop) (b : BatchId)
    (size : ℤ) (stored : Option Bytes) (base : List EmployeeRow) (db : Db) : Prop :=
  db.InPhase phase b ∨ (¬ Reliable may ∧ Accounted phase' b size stored base db)

/-- The batch is failed. -/
abbrev Db.Failed (db : Db) (b : BatchId) : Prop := db.InPhase (· = .failed) b

/-- The neighbours of the worker of batch `b`. Others may move the batch within `phase` as long as
it is open, and within `phase'` once it is accounted for. -/
structure Neighbours.Host (N : Neighbours) (phase phase' : IngestionBatchStatus → Prop)
    (b : BatchId) (size : ℤ) (stored : Option Bytes) (base : List EmployeeRow) : Prop
    extends N.Spare phase b where
  spares' : ∀ wr, N.allowed wr → wr.Spares phase' b
  fails : ∀ wr, N.allowed wr → wr.Spares (· = .failed) b
  complete : ∀ {w w' : World}, w.db.InPhase phase b →
    Accounted (fun _ => False) b size stored base w'.db → N.guar w w'
  fail : ∀ {w w' : World}, Aborted N.may phase phase' b size stored base w.db →
    w'.db = w.db.apply (.updateBatch b .failed []) → N.guar w w'
  same : ∀ {w w' : World}, Accounted phase' b size stored base w.db ∨ w.db.Failed b →
    w'.db = w.db → N.guar w w'

/-! ## The parts of the worker -/

section Worker

variable {pid : Pid} {N : Neighbours} {phase phase' : IngestionBatchStatus → Prop} {b : BatchId}
  {cfg : Settings} {w : World} {base : List EmployeeRow} {stored : Option Bytes}

/-- The download gives the stored file; when it raises, the batch is as before. -/
theorem ensures_downloadFile (hN : N.Spare phase b) {key : ObjectKey} (hkey : N.frozen key)
    {α : Type} {f : Bytes → Prog α} {Q : Except Exn α → World → Prop}
    (hs : Holding pid (Written phase b base []) (Writing []) w) (hfile : w.storage key = stored)
    (hok : ∀ file t, stored = some file → Holding pid (Written phase b base []) (Writing []) t →
      (f file).Ensures (N.env pid) Q t)
    (herror : ∀ e t, t.db.InPhase phase b → (Program.throw e : Prog α).Ensures (N.env pid) Q t) :
    ((downloadFile key).bind f).Ensures (N.env pid) Q w := by
  have hstable : (N.env pid).Stable fun w =>
      Holding pid (Written phase b base []) (Writing []) w ∧ w.storage key = stored :=
    fun hst h => ⟨stable_holding hN.keep_written hst h.1, (hst.storage key hkey).trans h.2⟩
  unfold downloadFile
  rw [Program.bind_eq, Program.bind_assoc]
  refine ensures_call_bind trivial hstable ⟨hs, hfile⟩ ?_
  intro t c r t' ht _ hexec
  obtain ⟨hlocal, hown, hchunks⟩ := exec_streamFile hexec
  have hheld : Holding pid (Written phase b base []) (Writing []) t' :=
    ht.1.local hlocal (writing_nil.mpr (hown.trans (writing_nil.mp ht.1.2)))
  refine ⟨hN.keep_written.guar_local ht.1 hlocal, ?_⟩
  cases r with
  | error e => exact herror e t' hheld.1.inPhase
  | ok chunks => exact hok chunks.flatten t' (ht.2.symm.trans (hchunks chunks rfl)) hheld

/-- How the part of the worker that writes employees ends. -/
def FileWritten (pid : Pid) (phase : IngestionBatchStatus → Prop) (b : BatchId) (size : ℤ)
    (stored : Option Bytes) (base : List EmployeeRow) : Except Exn (List String) → World → Prop
  | .ok errors, w => ∃ file records parseErrors chunks, ∃ new : List (EmployeeRecord × Bool),
      stored = some file ∧ parseEmployees file = .ok (records, parseErrors) ∧
      iterChunks records size = .ok chunks ∧ new.map Prod.fst = chunks.flatten ∧
      errors = parseErrors ++ (rejectedOf new).map EmployeeRecord.entry ∧
      Holding pid (Written phase b base new) (Writing []) w
  | .error _, w => w.db.InPhase phase b

/-- From the download to the last chunk: all records are written, or the batch is still open. -/
theorem ensures_ingestFile (hN : N.Spare phase b) (hkey : N.frozen (employeesKey cfg b))
    (hs : Holding pid (Written phase b base []) (Writing []) w)
    (hfile : w.storage (employeesKey cfg b) = stored) :
    (ingestFile b cfg).Ensures (N.env pid)
      (FileWritten pid phase b cfg.employeeChunkSize stored base) w := by
  have hthrow : ∀ (e : Exn) (t : World), t.db.InPhase phase b →
      (Program.throw e : Prog (List String)).Ensures (N.env pid)
        (FileWritten pid phase b cfg.employeeChunkSize stored base) t :=
    fun e t h => Program.ensures_throw (fun hst h => stable_db hN.keep_inPhase hst h) h
  refine ensures_downloadFile hN hkey hs hfile (fun file t hstored ht => ?_) hthrow
  rcases hparse : parseEmployees file with e | ⟨records, parseErrors⟩
  · exact hthrow e t ht.1.inPhase
  show ((Program.lift (iterChunks records cfg.employeeChunkSize)).bind _ :
    Prog (List String)).Ensures _ _ _
  rcases hchunks : iterChunks records cfg.employeeChunkSize with e | chunks
  · exact hthrow e t ht.1.inPhase
  · refine (ensures_writeChunks hN chunks ht).mono ?_
    intro r u h
    cases r with
    | error e => exact h
    | ok errors =>
        obtain ⟨new, hnew, rfl, hholding⟩ := h
        rw [List.nil_append] at hholding
        exact ⟨file, records, parseErrors, chunks, new, hstored, hparse, hchunks, hnew, rfl, hholding⟩

variable {size : ℤ}

/-- The others keep a batch that accounts for its file. -/
theorem Neighbours.Host.keep_accounted (hN : N.Host phase phase' b size stored base) :
    N.Keep (Accounted phase' b size stored base) where
  foldl h hws := h.map fun _ _ h => h.foldl fun wr hwr => hN.spares' wr (hws wr hwr)
  same h hdb := hN.same (Or.inl h) hdb

/-- The others keep a failed batch. -/
theorem Neighbours.Host.keep_failed (hN : N.Host phase phase' b size stored base) :
    N.Keep fun db => db.Failed b where
  foldl h hws := h.foldl fun wr hwr => hN.fails wr (hws wr hwr)
  same h hdb := hN.same (Or.inr h) hdb

/-- The others keep what an exception has left. -/
theorem Neighbours.Host.keep_aborted (hN : N.Host phase phase' b size stored base) :
    N.Keep (Aborted N.may phase phase' b size stored base) where
  foldl h hws := h.imp (fun h => hN.keep_inPhase.foldl h hws)
    fun h => ⟨h.1, hN.keep_accounted.foldl h.2 hws⟩
  same h hdb := h.elim (fun h => hN.keep_inPhase.same h hdb) fun h => hN.same (Or.inl h.2) hdb

/-- After an exception the batch is still there. -/
theorem Aborted.mem {may : Choice → Op → Prop} {db : Db}
    (h : Aborted may phase phase' b size stored base db) : Key.batch b ∈ db.keys := by
  rcases h with h | ⟨-, _, _, _, _, _, -, -, -, -, h⟩
  · exact h.mem
  · exact h.mem

/-- How `_process` ends. -/
def Processed (may : Choice → Op → Prop) (phase phase' : IngestionBatchStatus → Prop) (b : BatchId)
    (size : ℤ) (stored : Option Bytes) (base : List EmployeeRow) : Except Exn Unit → World → Prop
  | .ok _, w => Accounted phase' b size stored base w.db
  | .error _, w => Aborted may phase phase' b size stored base w.db

/-- Deleting the cached metrics leaves the batch accounted for, also when it raises. -/
theorem ensures_invalidateMetrics (hN : N.Host phase phase' b size stored base)
    (hs : Accounted phase' b size stored base w.db) :
    invalidateMetrics.Ensures (N.env pid)
      (Processed N.may phase phase' b size stored base) w := by
  refine ensures_of_bind_pure (ensures_call_bind trivial (stable_db hN.keep_accounted) hs ?_)
  intro t c r t' ht hc hexec
  obtain ⟨hdb, -, hcause⟩ := exec_cacheDelete hexec
  have haccounted : Accounted phase' b size stored base t'.db := by
    rw [show t'.db = t.db from hdb]
    exact ht
  refine ⟨hN.keep_accounted.same ht hdb, ?_⟩
  cases r with
  | ok _ => exact Program.ensures_pure (fun hst h => stable_db hN.keep_accounted hst h) haccounted
  | error e =>
      obtain ⟨f, hf, -⟩ := hcause.resolve_left fun h => nomatch h.1
      refine Program.ensures_throw (fun hst h => stable_db hN.keep_aborted hst h)
        (Or.inr ⟨fun hreliable => ?_, haccounted⟩)
      rw [hreliable.cacheDelete c _ hc] at hf
      cases hf

/-- `_process` closes the batch with an account of its file, or raises before or after. -/
theorem ensures_process (hN : N.Host phase phase' b cfg.employeeChunkSize stored base)
    (hkey : N.frozen (employeesKey cfg b))
    (hs : Holding pid (Written phase b base []) (Writing []) w)
    (hfile : w.storage (employeesKey cfg b) = stored) :
    (process b cfg).Ensures (N.env pid)
      (Processed N.may phase phase' b cfg.employeeChunkSize stored base) w := by
  have hthrow : ∀ (e : Exn) (t : World),
      Aborted N.may phase phase' b cfg.employeeChunkSize stored base t.db →
      (Program.throw e : Prog Unit).Ensures (N.env pid)
        (Processed N.may phase phase' b cfg.employeeChunkSize stored base) t :=
    fun e t h => Program.ensures_throw (fun hst h => stable_db hN.keep_aborted hst h) h
  refine Program.Ensures.bind ((ensures_ingestFile hN.toSpare hkey hs hfile).mono ?_)
  intro r t h
  cases r with
  | error e => exact hthrow e t (Or.inl h)
  | ok errors =>
      obtain ⟨file, records, parseErrors, chunks, new, hstored, hparse, hchunks, hnew, rfl, h⟩ := h
      show ((completeBatch b _).bind fun _ => invalidateMetrics).Ensures _ _ _
      unfold completeBatch
      rw [Program.bind_eq, Program.bind_assoc]
      refine ensures_updateStatus hN.keep_written h (fun db hdb => hdb.inPhase.mem) (fun t₁ h₁ => ?_)
        fun e t₁ h₁ => hthrow e t₁ (Or.inl h₁.1.inPhase)
      refine ensures_commit hN.keep_written h₁ (fun _ _ _ h => h) (fun _ _ _ _ h => trivial)
        (T := Unknown) (E := Accounted phase' b cfg.employeeChunkSize stored base) ?_ ?_ ?_ ?_
      · -- the rows have been committed by now, so the commit publishes the status and nothing else
        intro t t' hwritten hdb
        have haccounted : ∀ phase, Accounted phase b cfg.employeeChunkSize stored base t'.db := by
          intro phase
          rw [hdb]
          exact ⟨file, records, parseErrors, chunks, new, hstored, hparse, hchunks, hnew,
            hwritten.complete _⟩
        exact ⟨hN.complete hwritten.inPhase (haccounted _), haccounted _⟩
      · exact fun t₂ h₂ => ensures_invalidateMetrics hN h₂.1
      · exact fun e t₂ h₂ => hthrow e t₂ (Or.inl h₂.1.inPhase)
      · -- a lost acknowledgement: the batch is accounted for, and the handler runs all the same
        intro c f t₂ hc hf heffective hexn h₂
        refine hthrow f.exn t₂ (Or.inr ⟨fun hreliable => ?_, h₂.1⟩)
        rw [hreliable.commit c f hc hf hexn] at heffective
        cases heffective

/-- What is known of the batch while it is marked as failed. -/
def Marked (may : Choice → Op → Prop) (phase phase' : IngestionBatchStatus → Prop) (b : BatchId)
    (size : ℤ) (stored : Option Bytes) (base : List EmployeeRow) (db : Db) : Prop :=
  Aborted may phase phase' b size stored base db ∨ db.Failed b

/-- The others keep the state that the handler leaves. -/
theorem Neighbours.Host.keep_marked (hN : N.Host phase phase' b size stored base) :
    N.Keep (Marked N.may phase phase' b size stored base) where
  foldl h hws := h.imp (fun h => hN.keep_aborted.foldl h hws) fun h => hN.keep_failed.foldl h hws
  same h hdb := h.elim (fun h => hN.keep_aborted.same h hdb) fun h => hN.keep_failed.same h hdb

/-- Setting the status of a batch that exists to failed. -/
theorem failed_updateBatch {db : Db} (h : Key.batch b ∈ db.keys) (errors : List String) :
    (db.apply (.updateBatch b .failed errors)).Failed b := by
  obtain ⟨batch, hbatch⟩ := Option.isSome_iff_exists.mp ((batch_isSome_iff db).mpr h)
  exact ⟨_, by rw [apply_updateBatch_batch_self, hbatch]; rfl, rfl⟩

/-- `mark_batch_failed` respects the guarantee, whether or not its calls go through. -/
theorem ensures_markBatchFailed (hN : N.Host phase phase' b size stored base)
    (hs : Aborted N.may phase phase' b size stored base w.db) :
    (markBatchFailed b).Ensures (N.env pid)
      (fun _ t => Marked N.may phase phase' b size stored base t.db) w := by
  have hthrow : ∀ (e : Exn) (t : World), Marked N.may phase phase' b size stored base t.db →
      (Program.throw e : Prog Unit).Ensures (N.env pid)
        (fun _ t => Marked N.may phase phase' b size stored base t.db) t :=
    fun e t h => Program.ensures_throw (fun hst h => stable_db hN.keep_marked hst h) h
  have hpure : ∀ (t : World), Marked N.may phase phase' b size stored base t.db →
      (Program.pure () : Prog Unit).Ensures (N.env pid)
        (fun _ t => Marked N.may phase phase' b size stored base t.db) t :=
    fun t h => Program.ensures_pure (fun hst h => stable_db hN.keep_marked hst h) h
  have hbody : (do
      Uow.rollback
      Uow.updateStatus b .failed none
      Uow.commit : Prog Unit).Ensures (N.env pid)
      (fun _ t => Marked N.may phase phase' b size stored base t.db) w := by
    refine ensures_rollback hN.keep_aborted (S := Unknown) ⟨hs, trivial⟩ (fun t₁ h₁ _ => ?_)
      fun e t₁ h₁ => hthrow e t₁ (Or.inl h₁.1)
    refine ensures_updateStatus hN.keep_aborted h₁ (fun db hdb => hdb.mem) (fun t₂ h₂ => ?_)
      fun e t₂ h₂ => hthrow e t₂ (Or.inl h₂.1)
    refine ensures_of_bind_pure (ensures_commit hN.keep_aborted h₂ (fun _ _ _ h => h)
      (fun _ _ _ _ h => trivial) (T := Unknown) (E := fun db => db.Failed b) ?_
      (fun t₃ h₃ => hpure t₃ (Or.inr h₃.1)) (fun e t₃ h₃ => hthrow e t₃ (Or.inl h₃.1))
      fun c f t₃ _ _ _ _ h₃ => hthrow f.exn t₃ (Or.inr h₃.1))
    intro t t' haborted hdb
    refine ⟨hN.fail haborted hdb, ?_⟩
    rw [hdb]
    exact failed_updateBatch haborted.mem []
  refine Program.Ensures.tryExcept (hbody.mono ?_)
  intro r t h
  cases r with
  | ok _ => exact hpure t h
  | error e =>
      refine ensures_of_bind_pure (ensures_rollback hN.keep_marked (S := Unknown) ⟨h, trivial⟩ ?_ ?_)
      · exact fun t₁ h₁ _ => hpure t₁ h₁.1
      · exact fun e t₁ h₁ => hthrow e t₁ h₁.1

/-- The worker respects the guarantee, and it returns only when its batch is accounted for. -/
theorem ensures_streamAndProcess (hN : N.Host phase phase' b cfg.employeeChunkSize stored base)
    (hkey : N.frozen (employeesKey cfg b))
    (hs : Holding pid (Written phase b base []) (Writing []) w)
    (hfile : w.storage (employeesKey cfg b) = stored) :
    (streamAndProcess b cfg).Ensures (N.env pid) (fun r t => r = .ok () →
      Accounted phase' b cfg.employeeChunkSize stored base t.db) w := by
  refine Program.Ensures.tryExcept ((ensures_process hN hkey hs hfile).mono ?_)
  intro r t h
  cases r with
  | ok _ => exact Program.ensures_pure (fun hst h _ => stable_db hN.keep_accounted hst (h rfl)) fun _ => h
  | error exc =>
      refine Program.Ensures.bind ((ensures_markBatchFailed hN h).mono ?_)
      intro r t _
      cases r with
      | ok _ => exact Program.ensures_throw (fun _ _ => nofun) nofun
      | error e => exact Program.ensures_throw (fun _ _ => nofun) nofun

end Worker

end HiringService
