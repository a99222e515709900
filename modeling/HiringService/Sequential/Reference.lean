import HiringService.Calm

/-!
# Synchronous ingestion without outages

Undisturbed, the ingestion of departments or jobs does what one pass over the records does. The bulk
path and the fallback publish the same batch, rows and response; when the pass accepts nothing,
nothing is published.

The fallback leaves the savepoint of every row that it inserts open, and the commit at its end has to
close them one inside the other. With more of them than Python's recursion limit allows it raises
`RecursionError`, and no row is kept.
-/

namespace HiringService

open Effect (Program)

section Reference

variable {limits : ℕ+ → Prop} {limit : ℕ+} {t : ReferenceTable} {pid : Pid} {now : ℕ}
  {batchId : BatchId} {w : World} {db : Db} {ws : List Write} {depth : ℕ}
  {records : List ReferenceRecord}

/-! ## What is published -/

/-- The database after an ingestion at time `now` that created the rows of `records`. -/
def Db.published (db : Db) (t : ReferenceTable) (batchId : BatchId) (now : ℕ)
    (records : List ReferenceRecord) : Db :=
  Db.appendReference
    { db with batches := db.batches ++ [⟨batchId, .completed, some [], now⟩] }
    (records.map (ReferenceRecord.toRow batchId)) t

/-- The database that the ingestion sees after it has inserted its batch. -/
abbrev Db.withBatch (db : Db) (batchId : BatchId) (now : ℕ) : Db :=
  db.apply (.insertBatch ⟨batchId, .pending, none, now⟩)

theorem batch_mem_withBatch : Key.batch batchId ∈ (db.withBatch batchId now).keys := by
  rw [(keys_apply db _).mem_iff]
  exact List.mem_append_right _ List.mem_cons_self

theorem batch_mem_appendReference {rows : List ReferenceRow} (h : Key.batch batchId ∈ db.keys) :
    Key.batch batchId ∈ (db.appendReference rows t).keys := by
  rw [mem_keys_batch] at h ⊢
  cases t <;> exact h

/-- Completing the batch publishes it. -/
theorem apply_completed_eq_published (hfresh : Key.batch batchId ∉ db.keys) :
    ((db.withBatch batchId now).appendReference (records.map (ReferenceRecord.toRow batchId))
      t).apply (.updateBatch batchId .completed []) = db.published t batchId now records := by
  have hothers : db.batches.map (IngestionBatch.update batchId .completed []) = db.batches := by
    refine (List.map_congr_left fun b hb => ?_).trans (List.map_id _)
    have hid : b.id ≠ batchId := by
      rintro rfl
      exact hfresh ((mem_keys_batch db).mpr (List.mem_map_of_mem hb))
    simp [IngestionBatch.update, hid]
  cases t <;>
    simp [Db.published, Db.withBatch, Db.apply, Db.appendReference, hothers, IngestionBatch.update]

/-- A pass only looks at the ids in its table, and not at its batch. -/
theorem insertAll_reference_congr (batchId batchId' : BatchId) (records : List ReferenceRecord)
    {db' : Db}
    (h : (db.reference t).map ReferenceRow.id = (db'.reference t).map ReferenceRow.id) :
    ((referenceTable t batchId).insertAll db records).accepted =
        ((referenceTable t batchId').insertAll db' records).accepted ∧
      ((referenceTable t batchId).insertAll db records).rejected =
        ((referenceTable t batchId').insertAll db' records).rejected := by
  induction records generalizing db db' with
  | nil => exact ⟨rfl, rfl⟩
  | cons r rs ih =>
      -- whether a record is accepted depends on the ids in the table and on nothing else
      have hiff : (referenceTable t batchId).accepts db r ↔
          (referenceTable t batchId').accepts db' r := by
        show _ ∉ (db.reference t).map _ ∧ _ ↔ _ ∉ (db'.reference t).map _ ∧ _
        rw [h]
        rfl
      by_cases haccepts : (referenceTable t batchId).accepts db r
      · have hinsert : (((referenceTable t batchId).insert db r).reference t).map ReferenceRow.id =
            (((referenceTable t batchId').insert db' r).reference t).map ReferenceRow.id := by
          have hgrown : ∀ (b : BatchId) (db : Db),
              (((referenceTable t b).insert db r).reference t).map ReferenceRow.id =
                (db.reference t).map ReferenceRow.id ++ [r.id] := by
            intro b db
            cases t <;> exact List.map_append
          rw [hgrown, hgrown, h]
        have hrest := ih hinsert
        rw [OnePass.Table.insertAll_cons_of_accepts haccepts,
          OnePass.Table.insertAll_cons_of_accepts (hiff.mp haccepts)]
        exact ⟨congrArg (r :: ·) hrest.1, hrest.2⟩
      · have hrest := ih h
        rw [OnePass.Table.insertAll_cons_of_not_accepts haccepts,
          OnePass.Table.insertAll_cons_of_not_accepts (mt hiff.mpr haccepts)]
        exact ⟨hrest.1, congrArg (r :: ·) hrest.2⟩

/-- The batch of the ingestion does not change the pass. -/
theorem insertAll_withBatch (batchId : BatchId) (db : Db) (now : ℕ)
    (records : List ReferenceRecord) :
    ((referenceTable t batchId).insertAll (db.withBatch batchId now) records).accepted =
        ((referenceTable t batchId).insertAll db records).accepted ∧
      ((referenceTable t batchId).insertAll (db.withBatch batchId now) records).rejected =
        ((referenceTable t batchId).insertAll db records).rejected :=
  insertAll_reference_congr batchId batchId records (by rw [apply_insertBatch_reference])

/-! ## The calls of an ingestion -/

/-- The batch of an ingestion, whose id is fresh. -/
theorem calmly_batchAdd {Q : Except Exn Unit → World → Prop} (hs : Solo pid now w db [] 0)
    (hfresh : Key.batch batchId ∉ db.keys)
    (hQ : ∀ w', Solo pid now w' db [.insertBatch ⟨batchId, .pending, none, now⟩] 0 →
      w'.storage = w.storage → Q (.ok ()) w') :
    Calmly limits pid (Uow.batchAdd batchId .pending) w Q := by
  refine calmly_insert hs (addBatch_inserts _ _) (fun _ => hQ) ?_
  intro hrefused
  refine absurd ⟨trivial, fun k hk => ?_, List.nodup_singleton _, nofun⟩
    (hrefused.resolve_left Bool.false_ne_true)
  rw [List.mem_singleton.mp hk]
  exact hfresh

/-- The bulk path: it publishes everything when the pass rejects nothing, and leaves the database
otherwise. -/
theorem calmly_bulk (hs : Solo pid now w db [] 0) (hfresh : Key.batch batchId ∉ db.keys)
    (hnonempty : records ≠ []) :
    Calmly limits pid (Program.tryExcept (do return some (← IngestReference.bulk t batchId records))
        IngestReference.bulkFailed) w fun r w' =>
      (((referenceTable t batchId).insertAll db records).rejected = [] ∧
        r = .ok (some ⟨records.length, []⟩) ∧
        Solo pid now w' (db.published t batchId now records) [] 0) ∨
      (((referenceTable t batchId).insertAll db records).rejected ≠ [] ∧
        r = .ok none ∧ Solo pid now w' db [] 0) := by
  have hpass := (insertAll_withBatch (t := t) batchId db now records).2
  refine Calmly.tryExcept (Calmly.bind (Calmly.bind (calmly_batchAdd hs hfresh fun w₁ hs₁ _ => ?_)))
  refine Calmly.bind (calmly_insert hs₁ (insertReference_inserts _ _) ?_ ?_)
  · intro hadmits w₂ hs₂ _
    have hrejected := (admits_reference_rows_iff batch_mem_withBatch).mp hadmits
    rw [hpass] at hrejected
    refine Calmly.bind (calmly_updateStatus hs₂ ?_ ?_ ?_)
    · exact batch_mem_appendReference batch_mem_withBatch
    · intro _ w₃ hs₃
      refine Calmly.bind (calmly_commit_shallow hs₃ (Nat.zero_le 1) fun w₄ hs₄ _ => calmly_pure ?_)
      rw [← apply_completed_eq_published hfresh]
      exact calmly_pure (Or.inl ⟨hrejected, rfl, hs₄⟩)
    · exact fun hstorable => absurd (by simp) hstorable
  · -- the bulk insert has raised: the rollback leaves the session of before
    rintro hrefused _ e he rfl
    have hrejected : ((referenceTable t batchId).insertAll db records).rejected ≠ [] := by
      rw [← hpass]
      refine mt (admits_reference_rows_iff batch_mem_withBatch).mpr (hrefused.resolve_left ?_)
      simpa [Statement.write, Write.isEmpty] using hnonempty
    refine Calmly.bind (calmly_rollback hs₁.toHalted.fail fun w₂ hs₂ => ?_)
    rw [he]
    exact calmly_pure (Or.inr ⟨hrejected, rfl, hs₂⟩)

/-- One record of the fallback: where the table accepts it, it is created and its savepoint stays
open. -/
theorem calmly_insertRecord (hs : Solo pid now w db ws depth)
    (hbatch : Key.batch batchId ∈ (ws.foldl Db.apply db).keys) (acc : ℕ × List String)
    (record : ReferenceRecord) :
    let view := ws.foldl Db.apply db
    Calmly limits pid (IngestReference.insertRecord t batchId acc record) w fun r w' =>
      ((referenceTable t batchId).accepts view record ∧ r = .ok (acc.1 + 1, acc.2) ∧
        Solo pid now w' db (ws ++ [.insertReference t [record.toRow batchId]]) (depth + 1)) ∨
      (¬ (referenceTable t batchId).accepts view record ∧
        r = .ok (acc.1, acc.2 ++ [record.entry]) ∧ Solo pid now w' db ws depth) := by
  intro view
  refine Calmly.tryExcept (Calmly.bind (calmly_beginNested hs fun w₁ hs₁ hrecover => ?_))
  refine Calmly.bind (calmly_insert hs₁ (insertReference_inserts _ _) ?_ ?_)
  · intro hadmits w₂ hs₂ _
    exact calmly_pure (Or.inl ⟨(admits_reference_row_iff hbatch).mp hadmits, rfl, hs₂⟩)
  · rintro hrefused _ e he rfl
    have hadmits := hrefused.resolve_left Bool.false_ne_true
    show Calmly _ _ _ _ _
    rw [he]
    refine Calmly.bind (calmly_rollbackToSavepoint hrecover fun w₂ hs₂ => calmly_pure ?_)
    exact Or.inr ⟨mt (admits_reference_row_iff hbatch).mpr hadmits, rfl, hs₂⟩

/-- The loop of the fallback is a pass; it ends with a savepoint for each accepted record. -/
theorem calmly_insertRecords (hs : Solo pid now w db ws depth)
    (hbatch : Key.batch batchId ∈ (ws.foldl Db.apply db).keys) (acc : ℕ × List String)
    (records : List ReferenceRecord) :
    let pass := (referenceTable t batchId).insertAll (ws.foldl Db.apply db) records
    Calmly limits pid (records.foldlM (IngestReference.insertRecord t batchId) acc) w fun r w' =>
      r = .ok (acc.1 + pass.accepted.length, acc.2 ++ pass.rejected.map ReferenceRecord.entry) ∧
        ∃ ws', Solo pid now w' db ws' (depth + pass.accepted.length) ∧
          ws'.foldl Db.apply db = pass.state := by
  induction records generalizing w ws acc depth with
  | nil => exact calmly_pure ⟨by simp, ws, hs, rfl⟩
  | cons record records ih =>
      intro pass
      rw [List.foldlM_cons]
      refine Calmly.bind (Calmly.mono (calmly_insertRecord hs hbatch acc record) ?_)
      rintro _ w₁ (⟨haccepts, rfl, hs₁⟩ | ⟨haccepts, rfl, hs₁⟩)
      · -- accepted: one more row is visible to the records after it
        have hview : (ws ++ [Write.insertReference t [record.toRow batchId]]).foldl Db.apply db =
            (referenceTable t batchId).insert (ws.foldl Db.apply db) record := by
          rw [List.foldl_append]
          rfl
        have hpass : pass = _ := OnePass.Table.insertAll_cons_of_accepts haccepts
        have hrest := ih hs₁ (by rw [hview]; exact batch_mem_appendReference hbatch)
          (acc.1 + 1, acc.2)
        rw [hview] at hrest
        refine Calmly.mono hrest ?_
        rintro _ w₂ ⟨rfl, ws₂, hs₂, hstate⟩
        rw [Nat.add_assoc, Nat.add_comm 1] at hs₂
        rw [hpass]
        exact ⟨by simp [Nat.add_assoc, Nat.add_comm 1], ws₂, hs₂, hstate⟩
      · -- rejected: the session is as before, and there is an entry
        have hpass : pass = _ := OnePass.Table.insertAll_cons_of_not_accepts haccepts
        refine Calmly.mono (ih hs₁ hbatch (acc.1, acc.2 ++ [record.entry])) ?_
        rintro _ w₂ ⟨rfl, ws₂, hs₂, hstate⟩
        rw [hpass]
        exact ⟨by simp, ws₂, hs₂, hstate⟩

/-- The bulk path commits what the pass has inserted, or a commit can close the savepoints of the
fallback. -/
def CanCommit (limit : ℕ+) (pass : OnePass.Outcome Db ReferenceRecord) : Prop :=
  pass.rejected = [] ∨ pass.accepted.length ≤ limit

/-- What an ingestion of `records` that started in `db` leaves: the response of a pass, with the
errors of the parser, and the accepted rows under a completed batch if there are any. If they cannot
be committed, it raises and leaves the database. -/
def Ingested (limit : ℕ+) (t : ReferenceTable) (pid : Pid) (now : ℕ) (batchId : BatchId) (db : Db)
    (records : List ReferenceRecord) (parseErrors : List String) (r : Except Exn IngestionResponse)
    (w : World) : Prop :=
  let pass := (referenceTable t batchId).insertAll db records
  (CanCommit limit pass ∧
    r = .ok ⟨pass.accepted.length, pass.rejected.map ReferenceRecord.entry ++ parseErrors⟩ ∧
    Halted pid now w (if pass.accepted = [] then db else db.published t batchId now pass.accepted)) ∨
  (¬ CanCommit limit pass ∧ r = .error .recursion ∧ Halted pid now w db)

theorem calmly_fallback (hs : Solo pid now w db [] 0) (hfresh : Key.batch batchId ∉ db.keys)
    (hrejected : ((referenceTable t batchId).insertAll db records).rejected ≠ []) :
    Calmly (· = limit) pid (IngestReference.fallback t batchId records) w
      (Ingested limit t pid now batchId db records []) := by
  refine Calmly.bind (calmly_batchAdd hs hfresh fun w₁ hs₁ _ => ?_)
  refine Calmly.bind (Calmly.mono (calmly_insertRecords hs₁ batch_mem_withBatch (0, []) records) ?_)
  rintro _ w₂ ⟨rfl, ws₂, hs₂, hstate⟩
  obtain ⟨haccepted, hentries⟩ := insertAll_withBatch (t := t) batchId db now records
  rw [OnePass.Table.state_eq_foldl, referenceTable_foldl] at hstate
  simp only [List.foldl_cons, List.foldl_nil, haccepted, Nat.zero_add] at hstate hs₂
  simp only [List.foldl_cons, List.foldl_nil, haccepted, hentries, List.nil_append, Nat.zero_add]
  set pass := (referenceTable t batchId).insertAll db records with hpass
  have hcan : CanCommit limit pass ↔ pass.accepted.length ≤ limit := or_iff_right hrejected
  unfold IngestReference.commitCreated
  by_cases hnone : pass.accepted = []
  · rw [if_pos (by rw [hnone]; rfl)]
    refine Calmly.bind (calmly_pure (calmly_pure (Or.inl ⟨hcan.mpr ?_, ?_, ?_⟩)))
    · rw [hnone]
      exact Nat.zero_le _
    · rw [List.append_nil]
    · rw [if_pos hnone]
      exact hs₂.toHalted
  · rw [if_neg (by rwa [List.length_eq_zero_iff])]
    refine Calmly.bind (Calmly.bind (calmly_updateStatus hs₂ ?_ ?_ ?_))
    · rw [hstate]
      exact batch_mem_appendReference batch_mem_withBatch
    · intro _ w₃ hs₃
      by_cases hdepth : pass.accepted.length ≤ limit
      · refine calmly_commit hs₃ (by rintro _ rfl; exact hdepth) fun w₄ hs₄ _ =>
          calmly_pure (Or.inl ⟨hcan.mpr hdepth, by rw [List.append_nil], ?_⟩)
        rw [if_neg hnone, ← apply_completed_eq_published hfresh, ← hstate]
        rw [List.foldl_append] at hs₄
        exact hs₄.toHalted
      · -- the commit raises, and what the fallback has inserted is not kept
        exact calmly_commit_deep hs₃ (by rintro _ rfl; omega) fun w₄ hs₄ =>
          Or.inr ⟨mt hcan.mp hdepth, rfl, hs₄⟩
    · exact fun hstorable => absurd (by simp) hstorable

/-- The use case ingests, by the bulk path or by the fallback. -/
theorem calmly_execute (hs : Solo pid now w db [] 0) (hfresh : Key.batch batchId ∉ db.keys)
    (hnonempty : records ≠ []) :
    Calmly (· = limit) pid (IngestReference.execute t batchId records) w
      (Ingested limit t pid now batchId db records []) := by
  refine Calmly.bind (Calmly.mono (calmly_bulk hs hfresh hnonempty) ?_)
  rintro _ w₁ (⟨hrejected, rfl, hs₁⟩ | ⟨hrejected, rfl, hs₁⟩)
  · have haccepted := OnePass.Table.accepted_eq_of_rejected_eq_nil hrejected
    refine calmly_pure (Or.inl ⟨Or.inl hrejected, ?_, ?_⟩)
    · rw [haccepted, hrejected]
      rfl
    · rw [haccepted, if_neg hnonempty]
      exact hs₁.toHalted
  · exact calmly_fallback hs₁ hfresh hrejected

end Reference

end HiringService
