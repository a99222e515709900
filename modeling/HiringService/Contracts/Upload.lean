import HiringService.Calls
import HiringService.Contracts.Worker

/-!
# The upload of an employees file under faults and interference

When the upload has returned, its file is in storage and its batch exists, without rows: what the
worker of the batch starts from. Until the commit nothing in the database belongs to the batch.
-/

namespace HiringService

open Effect (Program)

/-- The neighbours of the upload that creates batch `b`: they do not bring it into existence, and
they accept that the upload does, as a batch of the phase. -/
structure Neighbours.Founding (N : Neighbours) (phase : IngestionBatchStatus → Prop) (b : BatchId) :
    Prop extends N.Spare phase b where
  vacant : ∀ wr, N.allowed wr → wr.Avoids b ∨ ∃ status errors, wr = .updateBatch b status errors
  idle : ∀ {w w' : World}, w.db.Vacant b → w'.db = w.db → N.guar w w'
  found : ∀ {w w' : World} {now : ℕ}, w.db.Vacant b →
    w'.db = w.db.apply (.insertBatch ⟨b, .pending, none, now⟩) → N.guar w w'
  pending : phase .pending

section Upload

variable {pid : Pid} {N : Neighbours} {phase : IngestionBatchStatus → Prop} {b : BatchId}
  {cfg : Settings} {w : World}

theorem Neighbours.Founding.keep_vacant (hN : N.Founding phase b) :
    N.Keep fun db => db.Vacant b where
  foldl h hws := h.foldl fun wr hwr => hN.vacant wr (hws wr hwr)
  same h hdb := hN.idle h hdb

/-- Inserting the row of a batch creates the batch, without rows. -/
theorem written_insertBatch (hpending : phase .pending) {db : Db} (h : db.Vacant b) (now : ℕ) :
    Written phase b [] [] (db.apply (.insertBatch ⟨b, .pending, none, now⟩)) where
  inPhase := ⟨⟨b, .pending, none, now⟩, batch_insertBatch_self h.batch_eq_none, hpending⟩
  rows := h.rowsOf_eq_nil

/-- The transaction of the upload. -/
theorem ensures_createBatch (hN : N.Founding phase b)
    (hs : Holding pid (fun db => db.Vacant b) (Writing []) w) :
    (do
      Uow.batchAdd b .pending
      Uow.commit
      return b : Prog BatchId).Ensures (N.env pid)
      (fun r t => ∀ u, r = .ok u → Written phase b [] [] t.db) w := by
  have hthrow : ∀ (e : Exn) (t : World), (Program.throw e : Prog BatchId).Ensures (N.env pid)
      (fun r t => ∀ u, r = .ok u → Written phase b [] [] t.db) t :=
    fun _ _ _ _ => nofun
  refine ensures_insert hN.keep_vacant (addBatch_inserts b .pending) hs (fun now t₁ h₁ _ => ?_)
    fun e t _ => hthrow e t
  refine ensures_commit hN.keep_vacant h₁ (fun _ _ _ h => h) (fun _ _ _ _ _ => trivial)
    (T := Unknown) (E := Written phase b [] []) ?_ ?_ (fun e t _ => hthrow e t)
    fun c f t _ _ _ _ _ => hthrow f.exn t
  · intro t t' hvacant hdb
    refine ⟨hN.found hvacant hdb, ?_⟩
    rw [hdb]
    exact written_insertBatch hN.pending hvacant now
  · exact fun t₂ h₂ => Program.ensures_pure
      (fun hst h u hu => stable_db hN.keep_written hst (h u hu)) fun _ _ => h₂.1

/-- What the worker of a batch starts from. -/
def Uploaded (cfg : Settings) (phase : IngestionBatchStatus → Prop) (b : BatchId) (file : Bytes)
    (w : World) : Prop :=
  Written phase b [] [] w.db ∧ w.storage (employeesKey cfg b) = some file

theorem stable_uploaded (hN : N.Spare phase b) (hkey : N.frozen (employeesKey cfg b))
    {file : Bytes} : (N.env pid).Stable (Uploaded cfg phase b file) :=
  fun hst h => ⟨stable_db hN.keep_written hst h.1, (hst.storage _ hkey).trans h.2⟩

/-- The upload respects the guarantee, and when it returns the worker can start. -/
theorem ensures_ingestEmployees (hN : N.Founding phase b) (hkey : N.frozen (employeesKey cfg b))
    (file : Bytes) (hs : Holding pid (fun db => db.Vacant b) (Writing []) w) :
    (ingestEmployees cfg b file).Ensures (N.env pid)
      (fun r t => ∀ u, r = .ok u → Uploaded cfg phase b file t) w := by
  refine ensures_call_bind trivial (stable_holding hN.keep_vacant) hs ?_
  intro t c r t' ht _ hexec
  obtain ⟨hdb, hown, hstored⟩ := exec_uploadFile hexec
  refine ⟨hN.idle ht.1 hdb, ?_⟩
  cases r with
  | error e => exact fun _ _ => nofun
  | ok _ =>
      have hheld : Holding pid (fun db => db.Vacant b) (Writing []) t' := by
        refine ⟨by rw [hdb]; exact ht.1, ?_⟩
        rw [hown]
        exact ht.2
      -- the object stays, because the rest of the program uploads nothing
      have huses : (do
          Uow.batchAdd b .pending
          Uow.commit
          return b : Prog BatchId).Uses fun op => ∀ key file, op ≠ .uploadFile key file :=
        Program.Uses.bind (Program.uses_request nofun) fun _ =>
          Program.Uses.bind (Program.uses_request nofun) fun _ => trivial
      have hrest := (ensures_createBatch hN hheld).frame
        (R := fun w => w.storage (employeesKey cfg b) = some file)
        (fun hst h => (hst.storage _ hkey).trans h) ?_ huses (hstored rfl)
      · exact hrest.mono fun h u hu => ⟨h.1 u hu, h.2⟩
      · intro c t op r t' hop ht hexec
        rcases (exec_called hexec).storage (employeesKey cfg b) with hsame | ⟨file', hupload, -⟩
        · exact hsame.trans ht
        · exact absurd hupload (hop _ _)

end Upload

end HiringService
