import HiringService.Contracts.Chunking
import HiringService.Contracts.Ingestion
import HiringService.Contracts.Upload
import HiringService.Ledger
import HiringService.Service.Registry

/-!
# Each request writes the ledger

Whatever raises, at whichever call, and whatever other transactions commit in between: every commit
of a request makes one entry of the ledger, of a kind that the request may make. This is what
`HiringService.Contracts.Ingestion` says for outages only; under arbitrary faults the fallback may
lose rows that it has counted, but what it commits is still its batch, completed, with rows of its
records in their order.
-/

namespace HiringService

open Effect (Program)
open Ledger (Entry)

/-! ## What a request may enter -/

/-- The records that the worker parses out of a file. -/
def fileRecords (file : Bytes) : List EmployeeRecord :=
  match parseEmployees file with
  | .ok (records, _) => records
  | .error _ => []

/-- The entries that a request may make; `file` is the object of its batch. -/
inductive Request.Makes (file : Bytes) : Request → Entry → Prop
  | ingest {t u records records' now} (h : records'.Sublist records) :
      Makes file (.ingest t u records) (.ingested t u records' now)
  | upload {u file' now} : Makes file (.ingestEmployees u file') (.opened u now)
  | write {b records} (h : records.Sublist (fileRecords file)) :
      Makes file (.processEmployees b) (.wrote b records)
  | complete {b errors} : Makes file (.processEmployees b) (.closed b .completed errors)
  | fail {b} : Makes file (.processEmployees b) (.closed b .failed [])
  | timeout {b} : Makes file (.getBatchStatus b) (.closed b .failed [])

/-- The rows of a batch in a reference table. -/
def Db.referenceRowsOf (db : Db) (t : ReferenceTable) (u : BatchId) : List ReferenceRow :=
  (db.reference t).filter fun r => r.batchId = u

/-- The rows of the batch of a request come from its records, in their order. -/
def Request.Sourced (file : Bytes) (db : Db) : Request → Prop
  | .ingest t u records => ∀ t', (db.referenceRowsOf t' u).Sublist
      (if t' = t then records.map (ReferenceRecord.toRow u) else [])
  | .ingestEmployees u file' =>
      (db.rowsOf u).Sublist ((fileRecords file').map (EmployeeRecord.toRow u))
  | .processEmployees b =>
      (db.rowsOf b).Sublist ((fileRecords file).map (EmployeeRecord.toRow b))
  | _ => True

/-- The neighbours of a request that keeps the ledger: they leave its batch alone, except that they
may time it out, and the object of its batch stays. -/
def scribes (cfg : Settings) (file : Bytes) (request : Request) : Neighbours where
  allowed wr := ∀ b, request.Owns b → wr.Avoids b ∨ wr = .updateBatch b .failed []
  frozen key := ∃ b, request = .processEmployees b ∧ key = employeesKey cfg b
  guar w w' := w'.db = w.db ∨ ∃ e, request.Makes file e ∧ e.Legal w.db ∧ w'.db = e.apply w.db ∧
    request.Sourced file w'.db
  may _ _ := True

section

variable {cfg : Settings} {file : Bytes} {request : Request} {pid : Pid} {w : World}
  {D : Db → Prop}

/-- An assertion that the neighbours keep. -/
theorem keep_scribes (hfoldl : ∀ {db ws}, D db →
    (∀ wr ∈ ws, (scribes cfg file request).allowed wr) → D (List.foldl Db.apply db ws)) :
    (scribes cfg file request).Keep D where
  foldl := hfoldl
  same _ hdb := Or.inl hdb

theorem keep_true : (scribes cfg file request).Keep fun _ => True :=
  keep_scribes fun _ _ => trivial

/-- A program that does not commit makes no entry. -/
theorem ensures_of_uses_scribes {α : Type} {p : Prog α} (huses : p.Uses fun op => op ≠ .commit) :
    p.Ensures ((scribes cfg file request).env pid) (fun _ _ => True) w := by
  induction p generalizing w with
  | pure a => exact fun _ _ => trivial
  | throw e => exact fun _ _ => trivial
  | call op k ih =>
      intro t _ c _
      rcases hexec : (machine pid).step c t op with _ | ⟨r, t'⟩
      · exact trivial
      · refine ⟨Or.inl ?_, ih r (huses.2 r)⟩
        exact (exec_called hexec).db.resolve_left fun h => huses.1 h.1

end

/-! ## Savepoints are numbered from 1 -/

section Savepoints

variable {pid : Pid} {c : Choice} {w w' : World} {r : Except Exn Unit}

/-- The savepoints of the session of `pid` have positive numbers. -/
def World.Numbered (w : World) (pid : Pid) : Prop :=
  ∀ h ∈ (w.server.sessions pid).savepoints, 0 < h

/-- The handle of a new savepoint is positive. -/
theorem numbered_savepoint (h : w.Numbered pid) : (w.savepoint pid).Numbered pid := by
  intro n hn
  simp only [World.savepoint, Txn.Server.savepoint_sessions, Function.update_self,
    Txn.Session.push_savepoints, List.mem_cons] at hn
  rcases hn with rfl | hn
  · exact (w.server.sessions pid).next_pos
  · exact h n hn

theorem World.Numbered.failIf {aborts : Bool} (h : w.Numbered pid) :
    (w.failIf pid aborts).Numbered pid := by
  rw [World.Numbered, failIf_savepoints]
  exact h

/-- `begin_nested` keeps the handles positive. -/
theorem numbered_beginNested (h : w.Numbered pid) (hexec : exec pid c w .beginNested = some (r, w')) :
    w'.Numbered pid := by
  rcases exec_cases hexec with hattempt | ⟨f, -, rfl, rfl⟩
  · simp only [attempt] at hattempt
    split at hattempt
    · cases hattempt
      exact h
    · cases hattempt
      exact numbered_savepoint h
  · refine World.Numbered.failIf ?_
    simp only [disturbed]
    split
    · exact numbered_savepoint h
    · exact h

theorem numbered_rollbackTo {handle : ℕ} {server : Txn.Server Pid Db Write} (h : w.Numbered pid)
    (hto : w.server.rollbackTo pid handle = some server) :
    ({ w with server := server } : World).Numbered pid := by
  obtain ⟨-, -, -, -, -, hsessions⟩ := w.server.rollbackTo_spec hto
  intro n hn
  simp only [hsessions, Function.update_self, Txn.Session.popTo_savepoints] at hn
  exact h n (List.mem_of_mem_filter hn)

/-- Going back to a savepoint keeps what was written before the first one. -/
theorem numbered_rollbackToSavepoint (h : w.Numbered pid)
    (hexec : exec pid c w .rollbackToSavepoint = some (.ok (), w')) :
    Local pid w w' ∧ w'.Numbered pid ∧ ∃ handle, 0 < handle ∧
      (w'.server.own pid = w.server.own pid ∨
        w'.server.own pid = (w.server.own pid).filter fun e => e.level < handle) := by
  rcases exec_cases hexec with hattempt | ⟨f, -, hr, -⟩
  · simp only [attempt] at hattempt
    split at hattempt
    · cases hattempt
      exact ⟨Local.refl w, h, 1, Nat.one_pos, Or.inl rfl⟩
    · rename_i handle _
      split at hattempt
      · cases hattempt
      · rename_i server hto
        cases hattempt
        obtain ⟨hlocal, hown⟩ := rollbackTo_local hto
        refine ⟨hlocal.slot_self none, numbered_rollbackTo h hto, handle, ?_, Or.inr hown⟩
        exact h handle (w.server.rollbackTo_spec hto).1
  · cases hr

end Savepoints

/-! ## The transaction of an ingestion -/

section Ingestion

variable {cfg : Settings} {file : Bytes} {pid : Pid} {w : World} {t : ReferenceTable} {u : BatchId}
  {records : List ReferenceRecord} {db : Db}

/-- Inserts into a reference table append their rows. -/
theorem foldl_insertReference_eq (inserts : List (List ReferenceRow)) (db : Db) :
    (inserts.map (Write.insertReference t)).foldl Db.apply db = db.appendReference inserts.flatten t := by
  induction inserts generalizing db with
  | nil => cases t <;> simp [Db.appendReference]
  | cons rows inserts ih =>
      rw [List.map_cons, List.foldl_cons, ih]
      cases t <;> simp [Db.apply, Db.appendReference]

/-- The transaction as one entry. -/
theorem foldl_ingestionWrites (hnew : Key.batch u ∉ db.keys) {now : ℕ}
    {inserts : List (List ReferenceRow)}
    (hrows : inserts.flatten = records.map (ReferenceRecord.toRow u)) :
    (ingestionWrites t u now inserts ++ [Write.updateBatch u .completed []]).foldl Db.apply db =
      (Entry.ingested t u records now).apply db := by
  have hothers : db.batches.map (IngestionBatch.update u .completed []) = db.batches := by
    refine (List.map_congr_left fun batch hmem => ?_).trans (List.map_id _)
    have hne : batch.id ≠ u := fun hid =>
      hnew ((mem_keys_batch db).mpr (List.mem_map.mpr ⟨batch, hmem, hid⟩))
    exact if_neg hne
  have hself : IngestionBatch.update u .completed [] ⟨u, .pending, none, now⟩ =
      ⟨u, .completed, some [], now⟩ :=
    if_pos rfl
  have hdrafted : (ingestionWrites t u now inserts).foldl Db.apply db =
      (db.apply (.insertBatch ⟨u, .pending, none, now⟩)).appendReference
        (records.map (ReferenceRecord.toRow u)) t := by
    rw [ingestionWrites, List.foldl_cons, foldl_insertReference_eq, hrows]
  rw [List.foldl_append, hdrafted, List.foldl_cons, List.foldl_nil]
  cases t <;>
    simp [Db.apply, Db.appendReference, Entry.apply, hothers, hself]

/-- What the entry adds to the tables. -/
theorem referenceRowsOf_ingested (hvacant : db.Vacant u) (now : ℕ) (t' : ReferenceTable) :
    ((Entry.ingested t u records now).apply db).referenceRowsOf t' u =
      if t' = t then records.map (ReferenceRecord.toRow u) else [] := by
  have hnil : (db.reference t').filter (fun r => r.batchId = u) = [] :=
    List.filter_eq_nil_iff.mpr fun r hr => by simpa using hvacant.reference t' r hr
  have hall : (records.map (ReferenceRecord.toRow u)).filter (fun r => r.batchId = u) =
      records.map (ReferenceRecord.toRow u) := by
    refine List.filter_eq_self.mpr fun r hr => ?_
    obtain ⟨record, -, rfl⟩ := List.mem_map.mp hr
    simp [ReferenceRecord.toRow]
  cases t <;> cases t' <;>
    simpa [Db.referenceRowsOf, Entry.apply, Db.appendReference, Db.reference, hall] using hnil

/-- The neighbours of an ingestion leave its batch vacant. -/
theorem keep_vacant_scribes :
    (scribes cfg file (.ingest t u records)).Keep fun db => db.Vacant u :=
  keep_scribes fun h hws => h.foldl fun wr hwr =>
    (hws wr hwr u rfl).imp_right fun heq => ⟨_, _, heq⟩

/-- The commit of an ingestion. -/
theorem publish_ingestion {now : ℕ} {inserts : List (List ReferenceRow)}
    {records' : List ReferenceRecord} (hrecords : records'.Sublist records)
    (hrows : inserts.flatten = records'.map (ReferenceRecord.toRow u)) {s s' : World}
    (hvacant : s.db.Vacant u) (hdb : s'.db =
      (ingestionWrites t u now inserts ++ [Write.updateBatch u .completed []]).foldl Db.apply s.db) :
    (scribes cfg file (.ingest t u records)).guar s s' ∧ True := by
  rw [foldl_ingestionWrites hvacant.batch hrows] at hdb
  refine ⟨Or.inr ⟨_, .ingest hrecords, hvacant.batch, hdb, fun t' => ?_⟩, trivial⟩
  rw [hdb, referenceRowsOf_ingested hvacant]
  split
  · exact hrecords.map _
  · exact List.Sublist.refl _

/-- The transaction of the fallback, whatever has raised so far: the batch comes first and cannot be
undone, and behind it are rows of the records that have been processed. -/
def Drafted (t : ReferenceTable) (u : BatchId) (done : List ReferenceRecord) : SessionPred :=
  fun own s _ => (∀ h ∈ s.savepoints, 0 < h) ∧ ∃ first rest now, ∃ records : List ReferenceRecord,
    own = first :: rest ∧ first.level = 0 ∧ records.Sublist done ∧ own.map Txn.Entry.write =
      ingestionWrites t u now (records.map fun r => [r.toRow u])

section Drafted

variable {own : List (Txn.Entry Pid Write)} {session : Txn.Session} {slot : Option ℕ}
  {done : List ReferenceRecord}

theorem Drafted.mono (h : Drafted t u done own session slot) {done' : List ReferenceRecord}
    (hdone : done.Sublist done') {session' : Txn.Session} {slot' : Option ℕ}
    (hsession : ∀ h ∈ session'.savepoints, 0 < h) : Drafted t u done' own session' slot' := by
  obtain ⟨-, first, rest, now, records, hown, hlevel, hrecords, hwrites⟩ := h
  exact ⟨hsession, first, rest, now, records, hown, hlevel, hrecords.trans hdone, hwrites⟩

/-- One more row. -/
theorem Drafted.insert (h : Drafted t u done own session slot) (record : ReferenceRecord)
    (level : ℕ) : Drafted t u (done ++ [record])
      (own ++ [⟨pid, level, .insertReference t [record.toRow u]⟩]) session slot := by
  obtain ⟨hsession, first, rest, now, records, rfl, hlevel, hrecords, hwrites⟩ := h
  refine ⟨hsession, first, rest ++ [_], now, records ++ [record], rfl, hlevel,
    hrecords.append (List.Sublist.refl _), ?_⟩
  rw [List.map_append, List.map_append, hwrites, List.map_singleton, List.map_singleton,
    ingestionWrites_concat]

/-- Going back to a savepoint drops some of the rows. -/
theorem Drafted.filter (h : Drafted t u done own session slot) {handle : ℕ} (hhandle : 0 < handle)
    {session' : Txn.Session} {slot' : Option ℕ} (hsession : ∀ h ∈ session'.savepoints, 0 < h) :
    Drafted t u done (own.filter fun e => e.level < handle) session' slot' := by
  obtain ⟨-, first, rest, now, records, rfl, hlevel, hrecords, hwrites⟩ := h
  have hfirst : (first :: rest).filter (fun e => e.level < handle) =
      first :: rest.filter fun e => e.level < handle :=
    List.filter_cons_of_pos (by simpa [hlevel] using hhandle)
  rw [List.map_cons, ingestionWrites, List.cons.injEq] at hwrites
  have hsub : ((rest.filter fun e => e.level < handle).map Txn.Entry.write).Sublist
      (records.map fun r => Write.insertReference t [r.toRow u]) := by
    have hrest := List.filter_sublist (p := fun e => decide (e.level < handle)) (l := rest)
    simpa [hwrites.2, Function.comp_def] using hrest.map Txn.Entry.write
  obtain ⟨records', hsub', heq⟩ := List.sublist_map_iff.mp hsub
  rw [hfirst]
  refine ⟨hsession, first, _, now, records', rfl, hlevel, hsub'.trans hrecords, ?_⟩
  rw [List.map_cons, ingestionWrites, heq, hwrites.1, List.map_map]
  rfl

end Drafted

/-! ### In bulk -/

/-- How the `try` of the bulk path ends: only an outage may come after the commit. -/
def BulkLeft (pid : Pid) (u : BatchId) : Except Exn IngestionResponse → World → Prop
  | .ok _, _ => True
  | .error e, w => e.isOperational = false → Holding pid (fun db => db.Vacant u) Unknown w

theorem stable_bulkLeft (r : Except Exn IngestionResponse) :
    ((scribes cfg file (.ingest t u records)).env pid).Stable (BulkLeft pid u r) := by
  intro s s' hst h
  cases r with
  | ok response => trivial
  | error e => exact fun he => stable_holding keep_vacant_scribes hst (h he)

/-- The bulk path signs the whole ingestion when it commits. -/
theorem bulk_scribes (hs : Holding pid (fun db => db.Vacant u) (Writing []) w) :
    (IngestReference.bulk t u records).Ensures ((scribes cfg file (.ingest t u records)).env pid)
      (BulkLeft pid u) w := by
  have hthrow : ∀ (e : Exn) (s : World), Holding pid (fun db => db.Vacant u) Unknown s →
      (Program.throw e : Prog IngestionResponse).Ensures
        ((scribes cfg file (.ingest t u records)).env pid) (BulkLeft pid u) s :=
    fun e s h => Program.ensures_throw (fun hst h => stable_bulkLeft (.error e) hst h) fun _ => h
  let rows := records.map (ReferenceRecord.toRow u)
  refine ensures_insert keep_vacant_scribes (addBatch_inserts u .pending) hs (fun now s₁ h₁ _ => ?_)
    hthrow
  refine ensures_insert keep_vacant_scribes (insertReference_inserts t rows) h₁ (fun _ s₂ h₂ _ => ?_)
    hthrow
  change Holding pid _ (Writing (ingestionWrites t u now [rows])) s₂ at h₂
  refine ensures_updateStatus keep_vacant_scribes h₂
    (fun db _ => mem_keys_ingestionWrites now [rows]) (fun s₃ h₃ => ?_) hthrow
  refine ensures_commit keep_vacant_scribes h₃ (fun _ _ _ h => h) (fun _ _ _ _ _ => trivial)
    (E := fun _ => True) (publish_ingestion (List.Sublist.refl _) (by simp [rows]))
    (fun s₄ _ _ _ => trivial) hthrow fun c f s₄ _ _ _ he _ => ?_
  refine Program.ensures_throw (fun hst h => stable_bulkLeft (.error f.exn) hst h) fun hne => ?_
  rw [he] at hne
  cases hne

/-- A session without a transaction. -/
def Idle : SessionPred := fun own s _ => own = [] ∧ s.savepoints = []

/-- After the handlers of the bulk path, the fallback starts with nothing pending. -/
theorem bulkFailed_scribes {exc : Exn} (hs : BulkLeft pid u (.error exc) w) :
    (IngestReference.bulkFailed exc).Ensures ((scribes cfg file (.ingest t u records)).env pid)
      (fun r s => r = .ok none → Holding pid (fun db => db.Vacant u) Idle s) w := by
  have hthrow : ∀ (e : Exn) (s : World),
      (Program.throw e : Prog (Option IngestionResponse)).Ensures
        ((scribes cfg file (.ingest t u records)).env pid)
        (fun r s => r = .ok none → Holding pid (fun db => db.Vacant u) Idle s) s :=
    fun _ _ _ _ => nofun
  by_cases hexc : exc.isOperational = true
  · refine ensures_rollback keep_true (S := Unknown) ⟨trivial, trivial⟩ (fun s₁ _ _ => ?_)
      fun e s₁ _ => hthrow e s₁
    show (if exc.isOperational = true then _ else _ : Prog _).Ensures _ _ _
    rw [if_pos hexc]
    obtain ⟨e, he⟩ := @raiseTranslated_eq (Option IngestionResponse) exc
    rw [he]
    exact hthrow e s₁
  · refine ensures_call_bind trivial (stable_holding keep_vacant_scribes) (hs (by simpa using hexc)) ?_
    intro s c r s' h _ hexec
    obtain ⟨hlocal, -, -, hcases⟩ := exec_rollback hexec
    refine ⟨Or.inl hlocal.db, ?_⟩
    cases r with
    | error e => exact hthrow e s'
    | ok _ =>
        have hidle := hcases.resolve_right fun h => nomatch h.1
        show (if exc.isOperational = true then _ else _ : Prog _).Ensures _ _ _
        rw [if_neg hexc]
        exact Program.ensures_pure (fun hst h hr => stable_holding keep_vacant_scribes hst (h hr))
          fun _ => h.local hlocal hidle

/-! ### Row by row -/

/-- The transaction of the fallback goes on after a record, whether or not its calls have raised. -/
theorem recordBody_scribes {acc : ℕ × List String} {done : List ReferenceRecord}
    (record : ReferenceRecord) (hs : Holding pid (fun db => db.Vacant u) (Drafted t u done) w) :
    (do
      Uow.beginNested
      Uow.referenceAdd t record u
      return (acc.1 + 1, acc.2) : Prog (ℕ × List String)).Ensures
      ((scribes cfg file (.ingest t u records)).env pid)
      (fun _ => Holding pid (fun db => db.Vacant u) (Drafted t u (done ++ [record]))) w := by
  have hthrow : ∀ (e : Exn) (s : World),
      Holding pid (fun db => db.Vacant u) (Drafted t u (done ++ [record])) s →
      (Program.throw e : Prog (ℕ × List String)).Ensures
        ((scribes cfg file (.ingest t u records)).env pid)
        (fun _ => Holding pid (fun db => db.Vacant u) (Drafted t u (done ++ [record]))) s :=
    fun e s h => Program.ensures_throw (stable_holding keep_vacant_scribes) h
  have hmore : done.Sublist (done ++ [record]) := List.sublist_append_left done [record]
  refine ensures_call_bind trivial (stable_holding keep_vacant_scribes) hs ?_
  intro s₁ c r s₂ h₁ _ hexec
  -- `begin_nested` writes nothing, with or without a savepoint
  obtain ⟨hlocal, hown, -⟩ := exec_beginNested hexec
  have hnumbered : s₂.Numbered pid := numbered_beginNested h₁.2.1 hexec
  have h₂ : Holding pid (fun db => db.Vacant u) (Drafted t u done) s₂ := by
    refine h₁.local hlocal ?_
    rw [hown]
    exact h₁.2.mono (List.Sublist.refl _) hnumbered
  refine ⟨Or.inl hlocal.db, ?_⟩
  cases r with
  | error e => exact hthrow e s₂ (h₂.mono (fun _ h => h) fun _ _ _ h => h.mono hmore h.1)
  | ok _ =>
      refine ensures_call_bind trivial (stable_holding keep_vacant_scribes) h₂ ?_
      -- the insert drafts the record, or it has no effect
      intro s₃ c' r' s₄ h₃ _ hinsert
      obtain ⟨hlocal', hslot, hsavepoints, hcases⟩ :=
        exec_insert (insertReference_inserts t [record.toRow u]) hinsert
      have hnumbered' : s₄.Numbered pid := by
        rw [World.Numbered, hsavepoints]
        exact h₃.2.1
      have h₄ : Holding pid (fun db => db.Vacant u) (Drafted t u (done ++ [record])) s₄ := by
        refine h₃.local hlocal' ?_
        rcases hcases with ⟨-, hown'⟩ | ⟨hown', -⟩
        · rw [hown']
          exact (h₃.2.insert record _).mono (List.Sublist.refl _) hnumbered'
        · rw [hown']
          exact h₃.2.mono hmore hnumbered'
      refine ⟨Or.inl hlocal'.db, ?_⟩
      cases r' with
      | error e => exact hthrow e s₄ h₄
      | ok _ => exact Program.ensures_pure (stable_holding keep_vacant_scribes) h₄

/-- A record is drafted or undone, and nothing is signed yet. -/
theorem insertRecord_scribes {acc : ℕ × List String} {done : List ReferenceRecord}
    (record : ReferenceRecord) (hs : Holding pid (fun db => db.Vacant u) (Drafted t u done) w) :
    (IngestReference.insertRecord t u acc record).Ensures
      ((scribes cfg file (.ingest t u records)).env pid)
      (fun r s => ∀ acc', r = .ok acc' →
        Holding pid (fun db => db.Vacant u) (Drafted t u (done ++ [record])) s) w := by
  have hstable : ∀ r : Except Exn (ℕ × List String),
      ((scribes cfg file (.ingest t u records)).env pid).Stable fun s => ∀ acc', r = .ok acc' →
        Holding pid (fun db => db.Vacant u) (Drafted t u (done ++ [record])) s :=
    fun r _ _ hst h acc' hr => stable_holding keep_vacant_scribes hst (h acc' hr)
  refine Program.Ensures.tryExcept ((recordBody_scribes record hs).mono fun {r s} h => ?_)
  cases r with
  | ok acc' => exact Program.ensures_pure (hstable _) fun _ _ => h
  | error exc =>
      show (if exc.isOperational = true then _ else _ : Prog (ℕ × List String)).Ensures _ _ _
      by_cases hexc : exc.isOperational = true
      · rw [if_pos hexc]
        obtain ⟨e, he⟩ := @raiseTranslated_eq (ℕ × List String) exc
        rw [he]
        exact Program.ensures_throw (hstable _) nofun
      · rw [if_neg hexc]
        refine ensures_call_bind trivial (stable_holding keep_vacant_scribes) h ?_
        intro s₁ c r s₂ h₁ _ hexec
        cases r with
        | error e =>
            exact ⟨Or.inl (exec_rollbackToSavepoint hexec).1.db,
              Program.ensures_throw (hstable _) nofun⟩
        | ok _ =>
            obtain ⟨hlocal, hnumbered, handle, hhandle, hown⟩ :=
              numbered_rollbackToSavepoint h₁.2.1 hexec
            refine ⟨Or.inl hlocal.db, Program.ensures_pure (hstable _) fun _ _ => ?_⟩
            refine h₁.local hlocal ?_
            rcases hown with hown | hown
            · rw [hown]
              exact h₁.2.mono (List.Sublist.refl _) hnumbered
            · rw [hown]
              exact h₁.2.filter hhandle hnumbered

/-- The end of the fallback. -/
theorem commitCreated_scribes (n : ℕ)
    (hs : Holding pid (fun db => db.Vacant u) (Drafted t u records) w) :
    (IngestReference.commitCreated u n).Ensures ((scribes cfg file (.ingest t u records)).env pid)
      (fun _ _ => True) w := by
  obtain ⟨hvacant, -, first, rest, now, records', -, -, hsub, hwrites⟩ := hs
  rw [IngestReference.commitCreated]
  split
  · exact fun _ _ => trivial
  · refine ensures_updateStatus keep_vacant_scribes ⟨hvacant, hwrites⟩
      (fun db _ => mem_keys_ingestionWrites now _) (fun s₁ h₁ => ?_) fun _ _ _ _ _ => trivial
    refine ensures_of_bind_pure (ensures_commit keep_vacant_scribes h₁ (fun _ _ _ h => h)
      (fun _ _ _ _ _ => trivial) (T := Unknown) (E := fun _ => True) (publish_ingestion hsub ?_)
      (fun _ _ _ _ => trivial) (fun _ _ _ _ _ => trivial) fun _ _ _ _ _ _ _ _ _ _ => trivial)
    rw [← List.flatMap_def, ← List.map_eq_flatMap]

/-- The fallback, from a session without a transaction. -/
theorem fallback_scribes (hs : Holding pid (fun db => db.Vacant u) Idle w) :
    (IngestReference.fallback t u records).Ensures
      ((scribes cfg file (.ingest t u records)).env pid) (fun _ _ => True) w := by
  refine ensures_call_bind trivial (stable_holding keep_vacant_scribes) hs ?_
  intro s₁ c r s₂ h₁ _ hexec
  obtain ⟨hlocal, -, hsavepoints, hcases⟩ := exec_insert (addBatch_inserts u .pending) hexec
  refine ⟨Or.inl hlocal.db, ?_⟩
  cases r with
  | error e => exact fun _ _ => trivial
  | ok _ =>
      -- the batch is drafted again, outside of all savepoints
      obtain ⟨hnil, hnone⟩ := h₁.2
      obtain ⟨-, hown⟩ := hcases.resolve_right fun h => nomatch h.2.choose_spec
      rw [hnil, List.nil_append] at hown
      have h₂ : Holding pid (fun db => db.Vacant u) (Drafted t u []) s₂ := by
        refine h₁.local hlocal ⟨?_, _, [], s₁.clock, [], hown, ?_, List.Sublist.refl _, ?_⟩
        · rw [hsavepoints, hnone]
          exact fun _ h => absurd h List.not_mem_nil
        · show (s₁.server.sessions pid).level = 0
          rw [Txn.Session.level, hnone]
          rfl
        · rw [hown]
          rfl
      -- the invariant of the loop: the records that have been tried are drafted or gone
      refine Program.Ensures.bind (Program.ensures_foldlM
        (I := fun done (_ : ℕ × List String) s =>
          Holding pid (fun db => db.Vacant u) (Drafted t u done) s) ?_ ?_ ?_ ?_ h₂)
      · exact fun _ _ _ _ hst h => stable_holding keep_vacant_scribes hst h
      · intro done record rest acc s _ h
        refine (insertRecord_scribes record h).mono fun {r s} h => ?_
        cases r with
        | ok acc' => exact h acc' rfl
        | error e => exact fun _ _ => trivial
      · exact fun e _ _ hst h => h.interfere hst
      · intro acc s h
        -- all of it is signed by the commit at the end
        refine Program.Ensures.bind ((commitCreated_scribes acc.1 h).mono fun {r _} _ => ?_)
        cases r <;> exact fun _ _ => trivial

/-- Whatever raises, an ingestion commits nothing but its batch with rows of its records. -/
theorem ingest_scribes (hs : Holding pid (fun db => db.Vacant u) (Writing []) w) :
    (IngestReference.execute t u records).Ensures
      ((scribes cfg file (.ingest t u records)).env pid) (fun _ _ => True) w := by
  refine Program.Ensures.bind (Program.Ensures.tryExcept (Program.Ensures.bind
    ((bulk_scribes hs).mono fun {r s} h => ?_)))
  cases r with
  | ok response => exact fun _ _ _ _ _ _ => trivial
  | error exc =>
      refine Program.ensures_throw (fun hst h => h.interfere hst)
        ((bulkFailed_scribes h).mono fun {r s} h => ?_)
      match r with
      | .ok none => exact fallback_scribes (h rfl)
      | .ok (some response) => exact fun _ _ => trivial
      | .error e => exact fun _ _ => trivial

end Ingestion

end HiringService
