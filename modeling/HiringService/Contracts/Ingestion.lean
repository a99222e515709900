import HiringService.Contracts.Session

/-!
# The synchronous ingestion under faults and interference

Whatever other transactions commit, as long as they leave the batch alone, and whichever calls raise
an `OperationalError`: an ingestion commits its batch completed and with its rows, or nothing
(`Db.Whole`), and when it returns it reports the number of rows that it has committed.

In the fallback, a row that fails is undone by going back to its savepoint, which also ends the
failure of the session, so that the transaction goes on with the rows before it.
-/

namespace HiringService

open Effect (Program)

/-! ## What has been committed -/

/-- The departments and jobs of a batch. -/
def Db.referenceOf (db : Db) (u : BatchId) : List ReferenceRow :=
  (db.departments ++ db.jobs).filter fun r => r.batchId = u

/-- The batch is completed and owns `n` departments or jobs, and at least one. -/
structure Db.Ingested (db : Db) (u : BatchId) (n : ℕ) : Prop where
  completed : db.CompletedWith u []
  rows : (db.referenceOf u).length = n
  pos : 0 < n

/-- Nothing of the batch is committed, or all of it. -/
def Db.Whole (db : Db) (u : BatchId) : Prop := db.Vacant u ∨ ∃ n, db.Ingested u n

/-- What is committed of the batch are `n` rows, and nothing if there are none. -/
def Db.Counted (db : Db) (u : BatchId) (n : ℕ) : Prop := (n = 0 ∧ db.Vacant u) ∨ db.Ingested u n

section Db

variable {db : Db} {u : BatchId} {n : ℕ} {wr : Write} {ws : List Write} {t : ReferenceTable}

/-- A write of others leaves the rows of a batch as they are. -/
theorem referenceOf_eq_of_avoids (h : wr.Avoids u) :
    (db.apply wr).referenceOf u = db.referenceOf u := by
  cases wr with
  | insertReference t rows =>
      have hnil : rows.filter (fun r => r.batchId = u) = [] :=
        List.filter_eq_nil_iff.mpr fun r hr => by simpa using h r hr
      cases t <;> simp [Db.referenceOf, Db.apply, Db.appendReference, hnil]
  | _ => rfl

/-- The same for any number of writes. -/
theorem referenceOf_foldl_of_avoids (h : ∀ wr ∈ ws, wr.Avoids u) :
    (ws.foldl Db.apply db).referenceOf u = db.referenceOf u := by
  induction ws generalizing db with
  | nil => rfl
  | cons wr ws ih =>
      rw [List.foldl_cons, ih fun wr' h' => h wr' (List.mem_cons_of_mem wr h'),
        referenceOf_eq_of_avoids (h wr List.mem_cons_self)]

/-- An unused batch id has no departments or jobs. -/
theorem Db.Vacant.referenceOf_eq_nil (h : db.Vacant u) : db.referenceOf u = [] := by
  refine List.filter_eq_nil_iff.mpr fun r hr => ?_
  rcases List.mem_append.mp hr with hr | hr
  · simpa using h.reference .departments r hr
  · simpa using h.reference .jobs r hr

/-- What an ingestion has committed stays as it is. -/
theorem Db.Ingested.foldl (h : db.Ingested u n) (hws : ∀ wr ∈ ws, wr.Avoids u) :
    Db.Ingested (ws.foldl Db.apply db) u n := by
  refine ⟨?_, by rw [referenceOf_foldl_of_avoids hws]; exact h.rows, h.pos⟩
  rw [Db.CompletedWith, batch_foldl_of_avoids hws]
  exact h.completed

/-- Nobody else uses the batch id of an ingestion. -/
theorem Db.Vacant.foldl_of_avoids (h : db.Vacant u) (hws : ∀ wr ∈ ws, wr.Avoids u) :
    Db.Vacant (ws.foldl Db.apply db) u :=
  h.foldl fun wr hwr => Or.inl (hws wr hwr)

/-- A batch stays all or nothing. -/
theorem Db.Whole.foldl (h : db.Whole u) (hws : ∀ wr ∈ ws, wr.Avoids u) :
    Db.Whole (ws.foldl Db.apply db) u := by
  rcases h with hvacant | ⟨n, hingested⟩
  · exact Or.inl (hvacant.foldl_of_avoids hws)
  · exact Or.inr ⟨n, hingested.foldl hws⟩

/-- The count of a batch stays right. -/
theorem Db.Counted.foldl (h : db.Counted u n) (hws : ∀ wr ∈ ws, wr.Avoids u) :
    Db.Counted (ws.foldl Db.apply db) u n := by
  rcases h with ⟨hzero, hvacant⟩ | hingested
  · exact Or.inl ⟨hzero, hvacant.foldl_of_avoids hws⟩
  · exact Or.inr (hingested.foldl hws)

/-- A batch whose rows are counted is all there. -/
theorem Db.Counted.whole (h : db.Counted u n) : db.Whole u :=
  h.imp And.right fun hingested => ⟨n, hingested⟩

/-- The count is that of the rows of the batch. -/
theorem Db.Counted.length_eq (h : db.Counted u n) : (db.referenceOf u).length = n := by
  rcases h with ⟨rfl, hvacant⟩ | hingested
  · rw [hvacant.referenceOf_eq_nil]
    rfl
  · exact hingested.rows

/-! ## The transaction of an ingestion -/

/-- What the transaction writes: the batch, then the rows of each insert. -/
def ingestionWrites (t : ReferenceTable) (u : BatchId) (now : ℕ) (inserts : List (List ReferenceRow)) :
    List Write :=
  .insertBatch ⟨u, .pending, none, now⟩ :: inserts.map (Write.insertReference t)

/-- One more INSERT goes to the end of the transaction. -/
theorem ingestionWrites_concat (now : ℕ) (inserts : List (List ReferenceRow))
    (rows : List ReferenceRow) : ingestionWrites t u now (inserts ++ [rows]) =
      ingestionWrites t u now inserts ++ [.insertReference t rows] := by
  rw [ingestionWrites, ingestionWrites, List.map_append, List.cons_append]
  rfl

/-- An INSERT for the batch adds its rows to those of the batch. -/
theorem length_referenceOf_insertReference {rows : List ReferenceRow}
    (hrows : ∀ r ∈ rows, r.batchId = u) : ((db.apply (.insertReference t rows)).referenceOf u).length =
      (db.referenceOf u).length + rows.length := by
  have hall : rows.filter (fun r => r.batchId = u) = rows :=
    List.filter_eq_self.mpr fun r hr => by simpa using hrows r hr
  cases t <;>
    simp only [Db.referenceOf, Db.apply, Db.appendReference, List.filter_append, hall,
      List.length_append] <;>
    omega

/-- The inserts leave the row of the batch, and add their rows to it. -/
theorem foldl_insertReference {inserts : List (List ReferenceRow)}
    (hrows : ∀ rows ∈ inserts, ∀ r ∈ rows, r.batchId = u) (db : Db) :
    ((inserts.map (Write.insertReference t)).foldl Db.apply db).batch u = db.batch u ∧
      (((inserts.map (Write.insertReference t)).foldl Db.apply db).referenceOf u).length =
        (db.referenceOf u).length + inserts.flatten.length := by
  induction inserts generalizing db with
  | nil => exact ⟨rfl, rfl⟩
  | cons rows inserts ih =>
      have hrest := ih (fun rows' h => hrows rows' (List.mem_cons_of_mem rows h))
        (db.apply (.insertReference t rows))
      have hlength := @length_referenceOf_insertReference db u t rows (hrows rows List.mem_cons_self)
      rw [List.map_cons, List.foldl_cons, List.flatten_cons, List.length_append, hrest.1, hrest.2]
      exact ⟨batch_insertReference t rows, by omega⟩

/-- The row of the batch is there when its status is updated. -/
theorem mem_keys_ingestionWrites (now : ℕ) (inserts : List (List ReferenceRow)) :
    Key.batch u ∈ ((ingestionWrites t u now inserts).foldl Db.apply db).keys := by
  rw [ingestionWrites, List.foldl_cons]
  refine mem_keys_foldl ?_ _
  rw [(keys_apply db _).mem_iff]
  exact List.mem_append_right _ (List.mem_singleton.mpr rfl)

/-- What the transaction leaves when it commits the batch as completed. -/
theorem ingested_foldl (h : db.Vacant u) (now : ℕ) {inserts : List (List ReferenceRow)}
    (hrows : ∀ rows ∈ inserts, ∀ r ∈ rows, r.batchId = u) (hpos : 0 < inserts.flatten.length) :
    Db.Ingested ((ingestionWrites t u now inserts ++ [Write.updateBatch u .completed []]).foldl
      Db.apply db) u inserts.flatten.length := by
  have hbatch : (db.apply (.insertBatch ⟨u, .pending, none, now⟩)).batch u =
      some ⟨u, .pending, none, now⟩ := batch_insertBatch_self h.batch_eq_none
  have hnil : (db.apply (.insertBatch ⟨u, .pending, none, now⟩)).referenceOf u = [] :=
    h.referenceOf_eq_nil
  obtain ⟨hkept, hlength⟩ := @foldl_insertReference u t inserts hrows
    (db.apply (.insertBatch ⟨u, .pending, none, now⟩))
  rw [hbatch] at hkept
  rw [hnil] at hlength
  rw [List.foldl_append, ingestionWrites, List.foldl_cons, List.foldl_cons, List.foldl_nil]
  refine ⟨⟨⟨u, .completed, some [], now⟩, ?_, rfl, rfl⟩, ?_, hpos⟩
  · rw [apply_updateBatch_batch_self, hkept]
    rfl
  · exact hlength.trans (Nat.zero_add _)

end Db

/-! ## The neighbours of an ingestion -/

/-- The neighbours of the ingestion that creates batch `u`: they leave the batch alone, and nothing
else is raised than an outage. -/
def ingestors (u : BatchId) : Neighbours where
  allowed wr := wr.Avoids u
  frozen _ := False
  guar _ w' := w'.db.Whole u
  may c _ := ∀ f, c.fault = some f → f.exn.isOperational = true

/-- An assertion about a whole batch, which writes that avoid the batch do not touch. -/
theorem keep_ingestors {u : BatchId} {D : Db → Prop} (hwhole : ∀ db, D db → db.Whole u)
    (hfoldl : ∀ {db ws}, D db → (∀ wr ∈ ws, wr.Avoids u) → D (List.foldl Db.apply db ws)) :
    (ingestors u).Keep D where
  foldl := hfoldl
  same h hdb := hwhole _ (by rw [hdb]; exact h)

/-- The others keep the batch id free. -/
theorem keep_vacant (u : BatchId) : (ingestors u).Keep fun db => db.Vacant u :=
  keep_ingestors (fun _ h => Or.inl h) fun h hws => h.foldl_of_avoids hws

/-- The others keep what has been ingested. -/
theorem keep_ingested (u : BatchId) (n : ℕ) : (ingestors u).Keep fun db => db.Ingested u n :=
  keep_ingestors (fun _ h => Or.inr ⟨n, h⟩) fun h hws => h.foldl hws

/-- The others keep the batch whole. -/
theorem keep_whole (u : BatchId) : (ingestors u).Keep fun db => db.Whole u :=
  keep_ingestors (fun _ h => h) fun h hws => h.foldl hws

/-- The others keep the count. -/
theorem keep_counted (u : BatchId) (n : ℕ) : (ingestors u).Keep fun db => db.Counted u n :=
  keep_ingestors (fun _ h => h.whole) fun h hws => h.foldl hws

namespace IngestReference

/-- How an ingestion ends: what it reports is what it has committed. -/
def Done (u : BatchId) : Except Exn IngestionResponse → World → Prop
  | .ok response, w => w.db.Counted u response.createdCount
  | .error _, _ => True

section

variable {pid : Pid} {t : ReferenceTable} {u : BatchId} {w : World}

/-- The result of an ingestion is out of the reach of the others. -/
theorem stable_done (r : Except Exn IngestionResponse) :
    ((ingestors u).env pid).Stable (Done u r) := by
  intro s s' hst h
  cases r with
  | ok response => exact stable_db (keep_counted u response.createdCount) hst h
  | error e => exact trivial

/-- The commit of an ingestion with its rows. -/
theorem publish_ingested {now : ℕ} {inserts : List (List ReferenceRow)}
    (hrows : ∀ rows ∈ inserts, ∀ r ∈ rows, r.batchId = u) (hpos : 0 < inserts.flatten.length)
    {s s' : World} (h : s.db.Vacant u) (hdb : s'.db =
      (ingestionWrites t u now inserts ++ [Write.updateBatch u .completed []]).foldl Db.apply s.db) :
    (ingestors u).guar s s' ∧ s'.db.Ingested u inserts.flatten.length := by
  have hingested := @ingested_foldl s.db u t h now inserts hrows hpos
  rw [← hdb] at hingested
  exact ⟨Or.inr ⟨_, hingested⟩, hingested⟩

/-! ## In bulk -/

/-- How the `try` of the bulk path ends. -/
def BulkDone (pid : Pid) (u : BatchId) : Except Exn IngestionResponse → World → Prop
  | .ok response, w => w.db.Ingested u response.createdCount
  | .error e, w => w.db.Whole u ∧
      (e.isOperational = false → Holding pid (fun db => db.Vacant u) Unknown w)

/-- So is the result of its bulk path. -/
theorem stable_bulkDone (r : Except Exn IngestionResponse) :
    ((ingestors u).env pid).Stable (BulkDone pid u r) := by
  intro s s' hst h
  cases r with
  | ok response => exact stable_db (keep_ingested u response.createdCount) hst h
  | error e => exact ⟨stable_db (keep_whole u) hst h.1,
      fun he => stable_holding (keep_vacant u) hst (h.2 he)⟩

/-- The bulk path commits everything or raises; only an outage may come after the commit. -/
theorem ensures_bulk {records : List ReferenceRecord} (hne : records ≠ [])
    (hs : Holding pid (fun db => db.Vacant u) (Writing []) w) :
    (bulk t u records).Ensures ((ingestors u).env pid) (BulkDone pid u) w := by
  have hthrow : ∀ (e : Exn) (s : World), BulkDone pid u (.error e) s →
      (Program.throw e : Prog IngestionResponse).Ensures ((ingestors u).env pid) (BulkDone pid u) s :=
    fun e s h => Program.ensures_throw (fun hst h => stable_bulkDone (.error e) hst h) h
  have hearly : ∀ (e : Exn) (s : World), Holding pid (fun db => db.Vacant u) Unknown s →
      (Program.throw e : Prog IngestionResponse).Ensures ((ingestors u).env pid) (BulkDone pid u) s :=
    fun e s h => hthrow e s ⟨Or.inl h.1, fun _ => h⟩
  let rows := records.map (ReferenceRecord.toRow u)
  have hrows : ∀ rows' ∈ [rows], ∀ r ∈ rows', r.batchId = u := by
    intro rows' h r hr
    rw [List.mem_singleton.mp h] at hr
    obtain ⟨record, -, rfl⟩ := List.mem_map.mp hr
    rfl
  have hlength : [rows].flatten.length = records.length := by simp [rows]
  have hpos : 0 < [rows].flatten.length := by
    rw [hlength]
    exact List.length_pos_iff.mpr hne
  refine ensures_insert (keep_vacant u) (addBatch_inserts u .pending) hs (fun now s₁ h₁ _ => ?_) hearly
  refine ensures_insert (keep_vacant u) (insertReference_inserts t rows) h₁ (fun _ s₂ h₂ _ => ?_)
    hearly
  change Holding pid _ (Writing (ingestionWrites t u now [rows])) s₂ at h₂
  refine ensures_updateStatus (keep_vacant u) h₂ (fun db _ => mem_keys_ingestionWrites now [rows])
    (fun s₃ h₃ => ?_) hearly
  refine ensures_commit (keep_vacant u) h₃ (fun _ _ _ h => h) (fun _ _ _ _ _ => trivial)
    (E := fun db => db.Ingested u [rows].flatten.length) (publish_ingested hrows hpos)
    (fun s₄ h₄ => ?_) hearly fun c f s₄ _ _ _ he h₄ => ?_
  · refine Program.ensures_pure (fun hst h => stable_bulkDone _ hst h) ?_
    rw [← hlength]
    exact h₄.1
  · -- the acknowledgement of the commit is lost, which is an outage
    refine hthrow f.exn s₄ ⟨Or.inr ⟨_, h₄.1⟩, fun hne => ?_⟩
    rw [he] at hne
    cases hne

/-- The handlers of the bulk path: the fallback starts with nothing committed and nothing
pending. -/
theorem ensures_bulkFailed {exc : Exn} (hs : BulkDone pid u (.error exc) w) :
    (bulkFailed exc).Ensures ((ingestors u).env pid)
      (fun r s => r = .ok none ∧ Holding pid (fun db => db.Vacant u) (Writing []) s ∨
        ∃ e, r = .error e) w := by
  have hthrow : ∀ (e : Exn) (s : World),
      (Program.throw e : Prog (Option IngestionResponse)).Ensures ((ingestors u).env pid)
        (fun r s => r = .ok none ∧ Holding pid (fun db => db.Vacant u) (Writing []) s ∨
          ∃ e, r = .error e) s :=
    fun e _ _ _ => Or.inr ⟨e, rfl⟩
  by_cases hexc : exc.isOperational = true
  · refine ensures_rollback (keep_whole u) (S := Unknown) ⟨hs.1, trivial⟩ (fun s₁ _ _ => ?_)
      fun e s₁ _ => hthrow e s₁
    show (if exc.isOperational = true then _ else _ : Prog _).Ensures _ _ _
    rw [if_pos hexc]
    obtain ⟨e, he⟩ := @raiseTranslated_eq (Option IngestionResponse) exc
    rw [he]
    exact hthrow e s₁
  · refine ensures_rollback (keep_vacant u) (hs.2 (by simpa using hexc)) (fun s₁ h₁ _ => ?_)
      fun e s₁ _ => hthrow e s₁
    show (if exc.isOperational = true then _ else _ : Prog _).Ensures _ _ _
    rw [if_neg hexc]
    exact Program.ensures_pure (fun hst h => h.imp (fun h =>
      ⟨h.1, stable_holding (keep_vacant u) hst h.2⟩) fun h => h) (Or.inl ⟨rfl, h₁⟩)

/-! ## Row by row -/

/-- The session can go on, with the writes `ws`. -/
def Ready (ws : List Write) : SessionPred := fun own s slot =>
  Writing ws own s slot ∧ s.failed = false

/-- The transaction of the fallback after `n` rows have been created. -/
def Created (t : ReferenceTable) (u : BatchId) (n : ℕ) : SessionPred := fun own s slot =>
  ∃ now, ∃ inserts : List (List ReferenceRow), (∀ rows ∈ inserts, ∀ r ∈ rows, r.batchId = u) ∧
    inserts.flatten.length = n ∧ Ready (ingestionWrites t u now inserts) own s slot

/-- How the `try` of a record ends. -/
def RecordDone (pid : Pid) (t : ReferenceTable) (u : BatchId) (acc : ℕ × List String)
    (ws : List Write) : Except Exn (ℕ × List String) → World → Prop
  | .ok acc', w => acc' = (acc.1 + 1, acc.2) ∧
      Holding pid (fun db => db.Vacant u) (Created t u (acc.1 + 1)) w
  | .error e, w => e.isOperational = false →
      Holding pid (fun db => db.Vacant u) (fun own s slot => Undoable ws own s slot ∧ slot ≠ none) w

/-- So is what the loop has done so far. -/
theorem stable_recordDone {acc : ℕ × List String} {ws : List Write}
    (r : Except Exn (ℕ × List String)) :
    ((ingestors u).env pid).Stable (RecordDone pid t u acc ws r) := by
  intro s s' hst h
  cases r with
  | ok acc' => exact ⟨h.1, stable_holding (keep_vacant u) hst h.2⟩
  | error e => exact fun he => stable_holding (keep_vacant u) hst (h he)

/-- The insert of a record in its savepoint. -/
theorem ensures_recordBody {acc : ℕ × List String} (record : ReferenceRecord) {now : ℕ}
    {inserts : List (List ReferenceRow)} (hrows : ∀ rows ∈ inserts, ∀ r ∈ rows, r.batchId = u)
    (hcount : inserts.flatten.length = acc.1) (hs : Holding pid (fun db => db.Vacant u)
      (Ready (ingestionWrites t u now inserts)) w) :
    (do
      Uow.beginNested
      Uow.referenceAdd t record u
      return (acc.1 + 1, acc.2) : Prog (ℕ × List String)).Ensures ((ingestors u).env pid)
      (RecordDone pid t u acc (ingestionWrites t u now inserts)) w := by
  have hthrow : ∀ (e : Exn) (s : World),
      RecordDone pid t u acc (ingestionWrites t u now inserts) (.error e) s →
      (Program.throw e : Prog (ℕ × List String)).Ensures ((ingestors u).env pid)
        (RecordDone pid t u acc (ingestionWrites t u now inserts)) s :=
    fun e s h => Program.ensures_throw (fun hst h => stable_recordDone (.error e) hst h) h
  refine ensures_beginNested (keep_vacant u) hs (fun _ _ _ h => h.1) (fun s₁ h₁ => ?_) ?_
  · refine ensures_insertNested (keep_vacant u) (insertReference_inserts t [record.toRow u])
      (fun _ => rfl) h₁ (fun s₂ h₂ hrunning => ?_) fun e s₂ h₂ hslot => ?_
    · refine Program.ensures_pure (fun hst h => stable_recordDone _ hst h)
        ⟨rfl, h₂.1, now, inserts ++ [[record.toRow u]], ?_, ?_, ?_, hrunning⟩
      · intro rows hmem r hr
        rcases List.mem_append.mp hmem with hmem | hmem
        · exact hrows rows hmem r hr
        · rw [List.mem_singleton.mp hmem, List.mem_singleton] at hr
          rw [hr]
          rfl
      · rw [List.flatten_append, List.length_append, hcount]
        rfl
      · rw [ingestionWrites_concat]
        exact h₂.2.writing
    · exact hthrow e s₂ fun _ => ⟨h₂.1, h₂.2, hslot⟩
  · -- the session needs no rollback here, so only the environment can make the call raise
    rintro e s₁ (⟨c, f, hmay, hf, rfl⟩ | ⟨own, s, slot, hready, hfailed⟩) -
    · refine hthrow f.exn s₁ fun he => ?_
      rw [hmay f hf] at he
      cases he
    · rw [hready.2] at hfailed
      cases hfailed

/-- One record: it adds its row, or it is undone and the transaction is as before. -/
theorem ensures_insertRecord {acc : ℕ × List String} (record : ReferenceRecord)
    (hs : Holding pid (fun db => db.Vacant u) (Created t u acc.1) w) :
    (insertRecord t u acc record).Ensures ((ingestors u).env pid)
      (fun r s => ∀ acc', r = .ok acc' →
        Holding pid (fun db => db.Vacant u) (Created t u acc'.1) s) w := by
  have hstable : ∀ r : Except Exn (ℕ × List String), ((ingestors u).env pid).Stable fun s =>
      ∀ acc', r = .ok acc' → Holding pid (fun db => db.Vacant u) (Created t u acc'.1) s :=
    fun r _ _ hst h acc' hr => stable_holding (keep_vacant u) hst (h acc' hr)
  obtain ⟨now, inserts, hrows, hcount, hready⟩ := hs.2
  refine Program.Ensures.tryExcept
    ((ensures_recordBody record hrows hcount ⟨hs.1, hready⟩).mono ?_)
  intro r s h
  cases r with
  | ok acc' =>
      obtain ⟨rfl, h⟩ := h
      refine Program.ensures_pure (hstable _) fun acc' hacc => ?_
      cases hacc
      exact h
  | error exc =>
      show (if exc.isOperational = true then _ else _ : Prog (ℕ × List String)).Ensures _ _ _
      by_cases hexc : exc.isOperational = true
      · rw [if_pos hexc]
        obtain ⟨e, he⟩ := @raiseTranslated_eq (ℕ × List String) exc
        rw [he]
        exact Program.ensures_throw (hstable _) nofun
      · rw [if_neg hexc]
        refine ensures_rollbackToSavepoint (keep_vacant u) (h (by simpa using hexc))
          (fun _ _ _ h => h.1) (fun s₁ h₁ hrunning => ?_)
          fun e s₁ _ => Program.ensures_throw (hstable _) nofun
        refine Program.ensures_pure (hstable _) fun acc' hacc => ?_
        cases hacc
        exact ⟨h₁.1, now, inserts, hrows, hcount, h₁.2, hrunning fun _ _ _ h => h.2⟩

/-- The end of the fallback. -/
theorem ensures_commitCreated {n : ℕ} {errors : List String}
    (hs : Holding pid (fun db => db.Vacant u) (Created t u n) w) :
    (do
      commitCreated u n
      return ⟨n, errors⟩ : Prog IngestionResponse).Ensures ((ingestors u).env pid) (Done u) w := by
  obtain ⟨hvacant, now, inserts, hrows, rfl, hready⟩ := hs
  have hthrow : ∀ (e : Exn) (s : World), (Program.throw e : Prog IngestionResponse).Ensures
      ((ingestors u).env pid) (Done u) s :=
    fun _ _ _ _ => trivial
  rw [commitCreated]
  by_cases hzero : inserts.flatten.length = 0
  · rw [if_pos hzero]
    exact Program.ensures_pure (fun hst h => stable_done _ hst h) (Or.inl ⟨hzero, hvacant⟩)
  · rw [if_neg hzero]
    rw [Program.bind_eq, Program.bind_eq, Program.bind_assoc]
    refine ensures_updateStatus (keep_vacant u) ⟨hvacant, hready.1⟩
      (fun db _ => mem_keys_ingestionWrites now inserts) (fun s₁ h₁ => ?_) fun e s _ => hthrow e s
    refine ensures_commit (keep_vacant u) h₁ (fun _ _ _ h => h) (fun _ _ _ _ _ => trivial)
      (T := Unknown) (E := fun db => db.Ingested u inserts.flatten.length)
      (publish_ingested hrows (Nat.pos_of_ne_zero hzero)) (fun s₂ h₂ => ?_)
      (fun e s _ => hthrow e s) fun c f s _ _ _ _ _ => hthrow f.exn s
    exact Program.ensures_pure (fun hst h => stable_done _ hst h) (Or.inr h₂.1)

/-- The fallback adds the batch again, since the rollback has undone it, and then tries the records
one by one. -/
theorem ensures_fallback (records : List ReferenceRecord)
    (hs : Holding pid (fun db => db.Vacant u) (Writing []) w) :
    (fallback t u records).Ensures ((ingestors u).env pid) (Done u) w := by
  refine ensures_insert (keep_vacant u) (addBatch_inserts u .pending) hs (fun now s₁ h₁ hrunning => ?_)
    fun e s _ _ _ => trivial
  refine Program.Ensures.bind (Program.ensures_foldlM
    (I := fun _ (acc : ℕ × List String) s =>
      Holding pid (fun db => db.Vacant u) (Created t u acc.1) s) ?_ ?_ ?_ ?_ ?_)
  · exact fun _ acc _ _ hst h => stable_holding (keep_vacant u) hst h
  · intro done record rest acc s _ h
    refine (ensures_insertRecord record h).mono fun {r s} h => ?_
    cases r with
    | ok acc' => exact h acc' rfl
    | error e => exact fun _ _ => trivial
  · exact fun e _ _ hst h => h.interfere hst
  · exact fun h => ensures_commitCreated h
  · exact ⟨h₁.1, now, [], nofun, rfl, h₁.2, hrunning⟩

/-- What an ingestion reports is what it has committed, and whatever it commits is a whole batch. -/
theorem ensures_execute {records : List ReferenceRecord} (hne : records ≠ [])
    (hs : Holding pid (fun db => db.Vacant u) (Writing []) w) :
    (execute t u records).Ensures ((ingestors u).env pid) (Done u) w := by
  refine Program.Ensures.bind (Program.Ensures.tryExcept (Program.Ensures.bind
    ((ensures_bulk hne hs).mono fun {r s} h => ?_)))
  cases r with
  | ok response =>
      refine Program.ensures_pure (fun hst h => h.interfere hst)
        (Program.ensures_pure (fun hst h => h.interfere hst) ?_)
      exact Program.ensures_pure (fun hst h => stable_done _ hst h) (Or.inr h)
  | error exc =>
      refine Program.ensures_throw (fun hst h => h.interfere hst) ((ensures_bulkFailed h).mono ?_)
      rintro r s (⟨rfl, hheld⟩ | ⟨e, rfl⟩)
      · exact ensures_fallback records hheld
      · exact fun _ _ => trivial

end

end IngestReference

end HiringService
