import HiringService.Interference

/-!
# The ledger

What the service is for, one transaction at a time: a batch of departments or jobs is ingested as a
whole, an employees batch is opened, employees are written under it, and it is closed. The database
of the service is what a list of such entries leads to, each of which is legal when it is made.

Nothing here knows of sessions, savepoints or faults; that the service only does this is proved in
`HiringService.Service.Ledger`.
-/

namespace HiringService

namespace Ledger

/-- What one transaction of the service does. -/
inductive Entry
  | ingested (t : ReferenceTable) (u : BatchId) (records : List ReferenceRecord) (now : ℕ)
  | opened (b : BatchId) (now : ℕ)
  | wrote (b : BatchId) (records : List EmployeeRecord)
  | closed (b : BatchId) (status : IngestionBatchStatus) (errors : List String)

namespace Entry

/-- The effect of an entry. -/
def apply (db : Db) : Entry → Db
  | .ingested t u records now =>
      ({ db with batches := db.batches ++ [⟨u, .completed, some [], now⟩] } : Db).appendReference
        (records.map (ReferenceRecord.toRow u)) t
  | .opened b now => { db with batches := db.batches ++ [⟨b, .pending, none, now⟩] }
  | .wrote b records =>
      { db with employees := db.employees ++ records.map (EmployeeRecord.toRow b) }
  | .closed b status errors =>
      { db with batches := db.batches.map (IngestionBatch.update b status errors) }

/-- The batch that an entry creates. -/
def creates : Entry → List BatchId
  | .ingested _ u _ _ => [u]
  | .opened b _ => [b]
  | _ => []

/-- An entry creates a batch that does not exist, or it is about a batch that does. -/
def Legal (db : Db) : Entry → Prop
  | .ingested _ u _ _ => Key.batch u ∉ db.keys
  | .opened b _ => Key.batch b ∉ db.keys
  | .wrote b _ => Key.batch b ∈ db.keys
  | .closed b _ _ => Key.batch b ∈ db.keys

end Entry

/-- The entries lead from `db` to `db'`, and each is legal when it is made. -/
def Leads : List Entry → Db → Db → Prop
  | [], db, db' => db' = db
  | e :: es, db, db' => e.Legal db ∧ Leads es (e.apply db) db'

section Leads

variable {db db' db'' : Db} {e : Entry} {es es' : List Entry}

theorem leads_append : Leads (es ++ es') db db'' ↔ ∃ db', Leads es db db' ∧ Leads es' db' db'' := by
  induction es generalizing db with
  | nil =>
      constructor
      · exact fun h => ⟨db, rfl, h⟩
      · rintro ⟨_, rfl, h⟩
        exact h
  | cons e es ih =>
      rw [List.cons_append, Leads, ih]
      constructor
      · rintro ⟨hlegal, db', h, h'⟩
        exact ⟨db', ⟨hlegal, h⟩, h'⟩
      · rintro ⟨db', ⟨hlegal, h⟩, h'⟩
        exact ⟨hlegal, db', h, h'⟩

/-- A ledger that grows by one entry. -/
theorem Leads.concat (h : Leads es db db') (hlegal : e.Legal db') :
    Leads (es ++ [e]) db (e.apply db') :=
  leads_append.mpr ⟨db', h, hlegal, rfl⟩

/-! ## What a ledger can do -/

/-- `db'` is `db` with more rows behind the others; of a batch, only the status and the errors may
have changed. -/
structure Grows (db db' : Db) : Prop where
  batches : (db.batches.map fun b => (b.id, b.createdAt)) <+:
    db'.batches.map fun b => (b.id, b.createdAt)
  reference : ∀ t, db.reference t <+: db'.reference t
  employees : db.employees <+: db'.employees

theorem Grows.refl (db : Db) : Grows db db :=
  ⟨List.prefix_refl _, fun _ => List.prefix_refl _, List.prefix_refl _⟩

theorem Grows.trans (h : Grows db db') (h' : Grows db' db'') : Grows db db'' where
  batches := h.batches.trans h'.batches
  reference t := (h.reference t).trans (h'.reference t)
  employees := h.employees.trans h'.employees

theorem grows_apply (db : Db) (e : Entry) : Grows db (e.apply db) := by
  cases e with
  | ingested t u records now =>
      refine ⟨?_, fun t' => ?_, ?_⟩
      · cases t <;> exact ⟨[(u, now)], by simp [Entry.apply, Db.appendReference]⟩
      · cases t <;> cases t' <;>
          simp [Entry.apply, Db.appendReference, Db.reference, List.prefix_append]
      · cases t <;> exact List.prefix_refl _
  | opened b now =>
      refine ⟨⟨[(b, now)], by simp [Entry.apply]⟩, fun t => ?_, List.prefix_refl _⟩
      cases t <;> exact List.prefix_refl _
  | wrote b records =>
      refine ⟨List.prefix_refl _, fun t => ?_, List.prefix_append _ _⟩
      cases t <;> exact List.prefix_refl _
  | closed b status errors =>
      refine ⟨?_, fun t => ?_, List.prefix_refl _⟩
      · have hcreated : ∀ batch : IngestionBatch,
            (batch.update b status errors).createdAt = batch.createdAt := by
          intro batch
          unfold IngestionBatch.update
          split <;> rfl
        simp [Entry.apply, Function.comp_def, hcreated]
      · cases t <;> exact List.prefix_refl _

theorem Leads.grows (h : Leads es db db') : Grows db db' := by
  induction es generalizing db with
  | nil =>
      cases h
      exact Grows.refl _
  | cons e es ih => exact (grows_apply db e).trans (ih h.2)

/-- The ids of batches only become more. -/
theorem Grows.mem_keys_batch (h : Grows db db') {b : BatchId} (hb : Key.batch b ∈ db.keys) :
    Key.batch b ∈ db'.keys := by
  rw [HiringService.mem_keys_batch, List.mem_map] at hb ⊢
  obtain ⟨batch, hmem, rfl⟩ := hb
  have hpair := h.batches.subset (List.mem_map.mpr ⟨batch, hmem, rfl⟩)
  obtain ⟨batch', hmem', hsame⟩ := List.mem_map.mp hpair
  exact ⟨batch', hmem', (Prod.mk.inj hsame).1⟩

/-- The batches that an entry creates exist afterwards. -/
theorem mem_keys_of_creates {b : BatchId} (hb : b ∈ e.creates) : Key.batch b ∈ (e.apply db).keys := by
  rw [HiringService.mem_keys_batch]
  cases e with
  | ingested t u records now =>
      obtain rfl := List.mem_singleton.mp hb
      cases t <;> simp [Entry.apply, Db.appendReference]
  | opened b' now =>
      obtain rfl := List.mem_singleton.mp hb
      simp [Entry.apply]
  | wrote => cases hb
  | closed => cases hb

/-- No batch is created twice, nor when it was there from the start. -/
theorem Leads.creates_nodup (h : Leads es db db') :
    (es.flatMap Entry.creates).Nodup ∧ ∀ b ∈ es.flatMap Entry.creates, Key.batch b ∉ db.keys := by
  induction es generalizing db with
  | nil => exact ⟨List.nodup_nil, nofun⟩
  | cons e es ih =>
      obtain ⟨hlegal, hrest⟩ := h
      obtain ⟨hnodup, hnew⟩ := ih hrest
      have hnew' : ∀ b ∈ es.flatMap Entry.creates, Key.batch b ∉ db.keys :=
        fun b hb hkey => hnew b hb ((grows_apply db e).mem_keys_batch hkey)
      have hfirst : ∀ b ∈ e.creates, Key.batch b ∉ db.keys := by
        intro b hb
        cases e with
        | ingested => exact List.mem_singleton.mp hb ▸ hlegal
        | opened => exact List.mem_singleton.mp hb ▸ hlegal
        | wrote => cases hb
        | closed => cases hb
      rw [List.flatMap_cons]
      refine ⟨List.nodup_append'.mpr ⟨?_, hnodup, fun b hb hb' => ?_⟩, fun b hb => ?_⟩
      · cases e with
        | ingested => exact List.nodup_singleton _
        | opened => exact List.nodup_singleton _
        | wrote => exact List.nodup_nil
        | closed => exact List.nodup_nil
      · exact hnew b hb' (mem_keys_of_creates hb)
      · rcases List.mem_append.mp hb with hb | hb
        · exact hfirst b hb
        · exact hnew' b hb

end Leads

end Ledger

end HiringService
