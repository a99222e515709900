import HiringService.Service.Batch

/-!
# Completed batches are accounted for

In every run of the service, whatever raises, a batch that is `completed` lists an entry for every
record of its file that has no row, and owns the rows of the others. A poll may set the batch to
failed at any time, which is all that others can do to it (`auditors`).
-/

namespace HiringService

open Effect (Program)

/-- What the database says about a batch, at any time: it does not exist yet, it is not completed,
or it is accounted for. -/
def Audited (cfg : Settings) (b : BatchId) (file : Bytes) (db : Db) : Prop :=
  db.Vacant b ∨ db.InPhase (· ≠ .completed) b ∨
    Accounted (· ≠ .completed) b cfg.employeeChunkSize (some file) [] db

/-- The neighbours of a batch that may be timed out at any time. -/
def auditors (cfg : Settings) (b : BatchId) (file : Bytes) : Neighbours where
  allowed wr := wr.Avoids b ∨ wr = .updateBatch b .failed []
  frozen key := key = employeesKey cfg b
  guar _ w' := Audited cfg b file w'.db
  may _ _ := True

section

variable {cfg : Settings} {b : BatchId} {file : Bytes} {db : Db}

theorem auditors_spares {phase : IngestionBatchStatus → Prop} (hphase : phase .failed) (wr : Write)
    (h : (auditors cfg b file).allowed wr) : wr.Spares phase b := by
  rcases h with havoids | rfl
  · exact havoids.spares phase
  · exact fun _ => hphase

theorem failed_not_completed (h : db.Failed b) : db.InPhase (· ≠ .completed) b := by
  obtain ⟨batch, hbatch, hfailed⟩ := h
  refine ⟨batch, hbatch, ?_⟩
  rw [hfailed]
  exact nofun

theorem auditors_host : (auditors cfg b file).Host (· ≠ .completed) (· ≠ .completed) b
    cfg.employeeChunkSize (some file) [] where
  spares := auditors_spares nofun
  guar h _ := Or.inr (Or.inl h)
  spares' := auditors_spares nofun
  fails := auditors_spares rfl
  complete _ h := Or.inr (Or.inr (h.map fun _ _ hr => hr.mono fun _ hphase => hphase.elim))
  fail h hdb := by
    refine Or.inr (Or.inl ?_)
    rw [hdb]
    exact failed_not_completed (failed_updateBatch h.mem [])
  same h hdb := by
    show Audited cfg b file _
    rw [hdb]
    exact h.elim (fun h => Or.inr (Or.inr h)) fun h => Or.inr (Or.inl (failed_not_completed h))

theorem auditors_cradle :
    (auditors cfg b file).Cradle cfg (· ≠ .completed) (· ≠ .completed) b file where
  founding :=
    { toSpare := auditors_host.toSpare
      vacant := fun wr h => h.imp_right fun hwr => ⟨_, _, hwr⟩
      idle := fun h hdb => by
        left
        rw [hdb]
        exact h
      found := fun h hdb => by
        refine Or.inr (Or.inl ?_)
        rw [hdb]
        exact (@written_insertBatch (· ≠ .completed) b nofun _ h _).inPhase
      pending := nofun }
  host := auditors_host
  avoids _ h := Or.inl h
  frozen _ := Iff.rfl

/-- What others do to a batch keeps what the database says about it. -/
theorem Audited.foldl (h : Audited cfg b file db) {ws : List Write}
    (hws : ∀ wr ∈ ws, wr.Avoids b ∨ wr = .updateBatch b .failed []) :
    Audited cfg b file (ws.foldl Db.apply db) := by
  have hspares : ∀ wr ∈ ws, wr.Spares (· ≠ .completed) b :=
    fun wr hwr => @auditors_spares cfg b file _ nofun wr (hws wr hwr)
  rcases h with hvacant | hopen | haccounted
  · exact Or.inl (hvacant.foldl fun wr hwr => (hws wr hwr).imp_right fun heq => ⟨_, _, heq⟩)
  · exact Or.inr (Or.inl (hopen.foldl hspares))
  · exact Or.inr (Or.inr (haccounted.map fun _ _ hr => hr.foldl hspares))

end

namespace Service

variable {cfg : Settings} {s s' : Service} {b : BatchId} {file : Bytes}

/-- The pact of a batch that may be timed out at any time holds in every run, and the database says
of the batch what it should. -/
theorem audited_of_runs {db : Db} {storage : ObjectKey → Option Bytes} {ok : Service → Label → Prop}
    (hruns : Runs cfg ok (initial db storage) s) {p : Pid} {status : Status}
    (hupload : s.procs p = some ⟨.ingestEmployees b file, status⟩) :
    Audited cfg b file s.world.db := by
  let P := Pact.ofBatch cfg (auditors cfg b file) (· ≠ .completed) b file
  have hrun := (orderly_initial db storage).run_invariant
    (I := fun s => ∀ {p status}, s.procs p = some ⟨.ingestEmployees b file, status⟩ →
      s.Engaged P ∧ Audited cfg b file s.world.db) ?_ nofun hruns
  · exact (hrun.2 hupload).2
  intro s s' l horderly hI _ hstep p status hupload
  have hmay : Faithful P s l := fun _ _ _ => trivial
  have hcreated := (move_of_step hstep).creator_before hupload List.mem_cons_self
  rcases hcreated with ⟨status₀, hbefore⟩ | hnew
  · obtain ⟨hE, haudited⟩ := hI hbefore
    refine ⟨horderly.engaged_step auditors_cradle hE hstep hmay (fun _ _ _ _ => Or.inr rfl) hupload,
      ?_⟩
    rcases horderly.batch_step hE hstep hmay hbefore with hguar | ⟨ws, hdb, hws⟩
    · exact hguar
    · rw [hdb]
      exact haudited.foldl fun wr hwr => hws.elim (fun h => Or.inl (h wr hwr)) fun h => h.2 wr hwr
  · refine ⟨horderly.engaged_step auditors_cradle (horderly.engaged_of_not_issued hnew) hstep hmay
      (fun _ _ _ _ => Or.inr rfl) hupload, Or.inl ?_⟩
    exact horderly.registered.vacant_step horderly.tidy (move_of_step hstep) hnew

/-- A completed batch is fully accounted for: of the records of its file, in file order, those
without a row of the batch have their entries behind the parser's, and the others are exactly the
rows of the batch. So every row of the file has become a row of the batch or an entry. -/
theorem completed_accounts_for_file (hsize : 0 < cfg.employeeChunkSize) {db : Db}
    {storage : ObjectKey → Option Bytes} (hruns : Runs cfg (fun _ _ => True) (initial db storage) s)
    {p : Pid} {status : Status} (hupload : s.procs p = some ⟨.ingestEmployees b file, status⟩)
    {batch : IngestionBatch} (hbatch : s.world.db.batch b = some batch)
    (hcompleted : batch.status = .completed) :
    ∃ records parseErrors rows, ∃ tagged : List (EmployeeRecord × Bool),
      parseEmployees file = .ok (records, parseErrors) ∧ readFile file = .ok rows ∧
      tagged.map Prod.fst = records ∧
      batch.errors = some (parseErrors ++ (rejectedOf tagged).map EmployeeRecord.entry) ∧
      s.world.db.rowsOf b = (acceptedOf tagged).map (EmployeeRecord.toRow b) ∧
      rows.length = (s.world.db.rowsOf b).length +
        (parseErrors ++ (rejectedOf tagged).map EmployeeRecord.entry).length := by
  rcases audited_of_runs hruns hupload with hvacant | ⟨batch', hbatch', hopen⟩ |
    ⟨file', records, parseErrors, chunks, tagged, hfile, hparse, hchunks, htagged, hrecorded⟩
  · rw [hvacant.batch_eq_none] at hbatch
    cases hbatch
  · obtain rfl := Option.some.inj (hbatch.symm.trans hbatch')
    exact absurd hcompleted hopen
  · cases hfile
    -- the chunks are all of the records, so every row of the file is written or reported
    obtain ⟨chunks', hchunks', hflatten⟩ := iterChunks_of_pos records hsize
    obtain rfl : chunks = chunks' := Except.ok.inj (hchunks.symm.trans hchunks')
    obtain ⟨rows, hrows, hlength⟩ := parseFile_length hparse
    have herrors := ((hrecorded.status batch hbatch).resolve_left fun h => h hcompleted).2
    have hrowsOf := hrecorded.rowsOf
    rw [List.nil_append] at hrowsOf
    refine ⟨records, parseErrors, rows, tagged, hparse, hrows, htagged.trans hflatten, herrors,
      hrowsOf, ?_⟩
    have htotal := length_acceptedOf_add_length_rejectedOf tagged
    have hrecords : tagged.length = records.length := by
      rw [← List.length_map, htagged, hflatten]
    rw [hrowsOf, List.length_append, List.length_map, List.length_map]
    omega

theorem completed_accounts_for_file_sample :
    ∃ s, (initial sampleDb fun _ => none).follow sampleSettings (fun _ _ => true)
        (clashingUpload ++ clashingWorker) = some s ∧
      ∃ records parseErrors rows, ∃ tagged : List (EmployeeRecord × Bool),
        parseEmployees clashingFile = .ok (records, parseErrors) ∧
        readFile clashingFile = .ok rows ∧ tagged.map Prod.fst = records ∧
        some ["1:B"] = some (parseErrors ++ (rejectedOf tagged).map EmployeeRecord.entry) ∧
        s.world.db.rowsOf 8 = (acceptedOf tagged).map (EmployeeRecord.toRow 8) ∧
        rows.length = (s.world.db.rowsOf 8).length +
          (parseErrors ++ (rejectedOf tagged).map EmployeeRecord.entry).length := by
  have hend : ((initial sampleDb fun _ => none).follow sampleSettings (fun _ _ => true)
      (clashingUpload ++ clashingWorker)).map
        (fun s => (s.world.db.batch 8, (s.procs 0).map Process.request)) =
      some (some ⟨8, .completed, some ["1:B"], 0⟩, some (.ingestEmployees 8 clashingFile)) := by
    decide +kernel
  obtain ⟨s, hs, hfacts⟩ := Option.map_eq_some_iff.mp hend
  obtain ⟨hbatch, hrequest⟩ := Prod.mk.inj hfacts
  obtain ⟨⟨_, status⟩, hproc, rfl⟩ := Option.map_eq_some_iff.mp hrequest
  exact ⟨s, hs, completed_accounts_for_file (by decide) (runs_of_test (fun _ _ _ => trivial) hs)
    hproc hbatch rfl⟩

end Service

end HiringService
