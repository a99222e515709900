import HiringService.Contracts.Ingestion
import HiringService.Sequential.Worker
import HiringService.Service.Keys
import HiringService.Service.Pact

/-!
# Concurrent synchronous ingestions

Any number of ingestions of departments and jobs, interleaved call by call, any of which may be cut
off or hit by an outage. Each of them has the contract of its batch (`Pact.ofIngestion`), because
the others leave the batch alone. So a batch is committed as a whole or not at all, nothing of it is
committed before the commit of its run, and a run that returns has counted its rows.
-/

namespace HiringService

open Effect (Program)

/-- The ingestion that creates batch `u`. -/
def Pact.ofIngestion (u : BatchId) : Pact where
  concerns request := ∃ t records, request = .ingest t u records
  neighbours := ingestors u
  post _ r w := ∀ response, r = .ok response →
    ∃ reply : IngestionResponse, response = .ingested reply ∧ w.db.Counted u reply.createdCount

namespace Service

variable {cfg : Settings} {s s' : Service} {l : Label} {u : BatchId} {t : ReferenceTable}
  {records : List ReferenceRecord}

/-- Only ingestions of some records arrive, and no call raises anything but an outage. -/
def Synchronous (_ : Service) (l : Label) : Prop :=
  (∀ q request, l = .arrive q request →
      ∃ t u records, request = .ingest t u records ∧ records ≠ []) ∧
    ∀ q c f, l = .call q c → c.fault = some f → f.exn.isOperational = true

/-- All processes are ingestions. -/
def OnlyIngests (s : Service) : Prop :=
  ∀ {q proc}, s.procs q = some proc → ∃ t u records, proc.request = .ingest t u records

theorem OnlyIngests.step (h : s.OnlyIngests) (hok : Synchronous s l) (hmove : Move cfg s l s') :
    s'.OnlyIngests := by
  intro q proc' hproc'
  rcases (hmove.turn q).origin hproc' with ⟨proc, hproc, hsame⟩ | ⟨-, hstarts⟩
  · rw [← hsame]
    exact h hproc
  · cases hstarts with
    | arrive =>
        obtain ⟨t, u, records, hrequest, -⟩ := hok.1 _ _ rfl
        exact ⟨t, u, records, hrequest⟩
    | schedule htask hproc =>
        obtain ⟨_, _, _, rfl, -, -⟩ := Request.task_eq_some htask
        obtain ⟨_, _, _, hrequest⟩ := h hproc
        cases hrequest

theorem ensures_ingest_program {q : Pid} {w : World} (hne : records ≠ []) (hvacant : w.db.Vacant u)
    (hown : w.server.own q = []) : ((Request.ingest t u records).program cfg).Ensures
      ((ingestors u).env q) ((Pact.ofIngestion u).post (.ingest t u records)) w := by
  have hexecute : (ingest t u records).Ensures ((ingestors u).env q) (IngestReference.Done u) w := by
    cases t <;> exact IngestReference.ensures_execute hne ⟨hvacant, writing_nil.mpr hown⟩
  refine Program.Ensures.bind (hexecute.mono fun {r w'} h => ?_)
  cases r with
  | ok reply =>
      refine Program.ensures_pure (fun hst h response hr => ?_) fun response hr => ?_
      · obtain ⟨reply, rfl, hcounted⟩ := h response hr
        exact ⟨reply, rfl, stable_db (keep_counted u _) hst hcounted⟩
      · cases hr
        exact ⟨reply, rfl, h⟩
  | error e => exact fun _ _ => nofun

/-- Every step keeps the pact of a batch. -/
theorem Engaged.ingest_step (hE : s.Engaged (Pact.ofIngestion u)) (horderly : s.Orderly cfg)
    (hall : s.OnlyIngests) (hok : Synchronous s l) (hmove : Move cfg s l s') :
    s'.Engaged (Pact.ofIngestion u) := by
  refine hE.step hmove (fun hlabel _ _ f hf => hok.2 _ _ f hlabel hf) ?_ ?_
  · rintro q request hnew hstarts ⟨t, records, rfl⟩
    cases hstarts with
    | arrive _ hfresh _ hworld =>
        obtain ⟨t', u', records', hrequest, hne⟩ := hok.1 _ _ rfl
        cases hrequest
        rw [hworld]
        exact ensures_ingest_program hne
          (horderly.registered.vacant u (hfresh u (List.mem_singleton.mpr rfl)))
          (horderly.tidy.own_of_none hnew)
    | schedule htask =>
        obtain ⟨_, _, _, -, -, hnext⟩ := Request.task_eq_some htask
        cases hnext
  · rintro q request rest actor hproc ⟨t, records, rfl⟩ hne hshift
    refine horderly.foreign (b := u) hproc rfl hne hshift (fun _ h => h) (fun p hpolls => ?_)
      fun _ => False.elim
    obtain ⟨c, k, -, hpoll⟩ := hpolls
    obtain ⟨_, _, _, hrequest⟩ := hall hpoll
    cases hrequest

/-- What a step does to the committed data of a batch: the ingestion that creates the batch commits,
or the batch is avoided. -/
theorem Orderly.ingest_db_step (h : s.Orderly cfg) (hall : s.OnlyIngests) (hmove : Move cfg s l s')
    (u : BatchId) :
    (∃ q t records ws, s.Publishes l q (.ingest t u records) ∧
      Event.commit q ws ∈ s'.world.history) ∨
      ∃ ws : List Write, s'.world.db = ws.foldl Db.apply s.world.db ∧ ∀ wr ∈ ws, wr.Avoids u := by
  rcases h.db_step hmove u with ⟨q, request, hpublishes, howns, hpublished⟩ | ⟨ws, hdb, hws⟩
  · obtain ⟨c, k, hlabel, hproc⟩ := hpublishes
    obtain ⟨t, u', records, hrequest⟩ := hall hproc
    cases hrequest
    obtain rfl : u' = u := howns
    refine Or.inl ⟨q, t, records, s.world.server.writes q, ⟨c, k, hlabel, hproc⟩, ?_⟩
    rw [hpublished.history]
    exact List.mem_append_right _ (List.mem_singleton.mpr rfl)
  · rcases hws with havoids | ⟨⟨q, c, k, -, hpoll⟩, -⟩
    · exact Or.inr ⟨ws, hdb, havoids⟩
    · obtain ⟨_, _, _, hrequest⟩ := hall hpoll
      cases hrequest

/-! ## What is known of an ingestion -/

/-- What holds of the ingestion `q` of batch `u`, at any time. -/
structure Attested (s : Service) (q : Pid) (u : BatchId) (status : Status) : Prop where
  engaged : s.Engaged (Pact.ofIngestion u)
  whole : s.world.db.Whole u
  uncommitted : (∀ ws, Event.commit q ws ∉ s.world.history) → s.world.db.Vacant u
  counted : ∀ response, status = .returned response → ∃ reply : IngestionResponse,
    response = .ingested reply ∧ s.world.db.Counted u reply.createdCount

/-- An ingestion that a step has just started. -/
theorem attested_of_not_issued (horderly : s.Orderly cfg) (hall : s.OnlyIngests)
    (hok : Synchronous s l) (hmove : Move cfg s l s') {q : Pid} {status : Status}
    (hproc' : s'.procs q = some ⟨.ingest t u records, status⟩) (hu : u ∉ s.issued) :
    s'.Attested q u status := by
  have hengaged : s.Engaged (Pact.ofIngestion u) := by
    rintro q request rest hproc ⟨t, records, rfl⟩
    exact absurd (horderly.registered.issued hproc (List.mem_singleton.mpr rfl)) hu
  have hvacant := horderly.registered.vacant_step horderly.tidy hmove hu
  refine ⟨hengaged.ingest_step horderly hall hok hmove, Or.inl hvacant, fun _ => hvacant, ?_⟩
  rintro response rfl
  -- the process has only been started, so it has not returned
  have hfresh : u ∈ (Request.ingest t u records).fresh := List.mem_singleton.mpr rfl
  rcases hmove.turn q with ⟨hproc, -, -⟩ | ⟨-, hproc, -, -, -⟩ | ⟨-, hproc, -, hnext⟩ |
    ⟨hproc, hnext, -, -⟩
  · rw [hproc] at hproc'
    exact absurd (horderly.registered.issued hproc' hfresh) hu
  · cases hproc.symm.trans hproc'
  · cases hnext.symm.trans hproc'
  · cases hnext.symm.trans hproc'
    exact absurd (horderly.registered.issued hproc hfresh) hu

theorem Attested.step {q : Pid} {status status' : Status} (h : s.Attested q u status)
    (horderly : s.Orderly cfg) (hall : s.OnlyIngests) (hok : Synchronous s l)
    (hmove : Move cfg s l s') (hproc : s.procs q = some ⟨.ingest t u records, status⟩)
    (hproc' : s'.procs q = some ⟨.ingest t u records, status'⟩) : s'.Attested q u status' := by
  have hfaithful : Faithful (Pact.ofIngestion u) s l := fun hlabel _ _ f hf => hok.2 _ _ f hlabel hf
  have hE : s.Engaged (Pact.ofIngestion u) := h.engaged
  have hengaged : s'.Engaged (Pact.ofIngestion u) := hE.ingest_step horderly hall hok hmove
  -- a process that has just returned has counted, and what had been counted before stays
  have hreturned : ∀ response, status' = .returned response → status = .returned response ∨
      (∃ reply : IngestionResponse, response = .ingested reply ∧
        s'.world.db.Counted u reply.createdCount) := by
    rintro response rfl
    rcases hmove.turn q with ⟨hsame, -, -⟩ | ⟨hnew, -, -, -, -⟩ | ⟨-, -, -, hnext⟩ |
      ⟨hrunning, hnext, hends, hworld⟩
    · cases hproc.symm.trans (hsame.symm.trans hproc')
      exact Or.inl rfl
    · cases hnew.symm.trans hproc
    · cases hnext.symm.trans hproc'
    · cases hnext.symm.trans hproc'
      cases hends
      have hpost := hE.returned hrunning ⟨t, records, rfl⟩ response rfl
      rw [hworld]
      exact Or.inr hpost
  rcases horderly.ingest_db_step hall hmove u with ⟨q', t', records', ws, hpublishes, hevent⟩ |
    ⟨ws, hdb, havoids⟩
  · have hguar := hE.guar hmove hfaithful hpublishes ⟨t', records', rfl⟩
    obtain ⟨c, k, -, hrunning⟩ := hpublishes
    obtain rfl := horderly.registered.creator hproc hrunning (List.mem_singleton.mpr rfl)
      (List.mem_singleton.mpr rfl)
    refine ⟨hengaged, hguar, fun hnone => absurd hevent (hnone ws), fun response hresponse => ?_⟩
    refine (hreturned response hresponse).resolve_left ?_
    rintro rfl
    cases hproc.symm.trans hrunning
  · refine ⟨hengaged, by rw [hdb]; exact h.whole.foldl havoids, fun hnone => ?_,
      fun response hresponse => ?_⟩
    · obtain ⟨actor, hshift⟩ := hmove.shift
      rw [hdb]
      exact (h.uncommitted fun ws hmem => hnone ws (hshift.history_mem _ hmem)).foldl_of_avoids havoids
    · rcases hreturned response hresponse with hbefore | hcounted
      · obtain ⟨reply, hreply, hcounted⟩ := h.counted response hbefore
        refine ⟨reply, hreply, ?_⟩
        rw [hdb]
        exact hcounted.foldl havoids
      · exact hcounted

/-- What is known of an ingestion holds in every run of ingestions. -/
theorem attested_of_runs {db : Db} {storage : ObjectKey → Option Bytes}
    (hruns : Runs cfg Synchronous (initial db storage) s) {q : Pid} {status : Status}
    (hproc : s.procs q = some ⟨.ingest t u records, status⟩) : s.Attested q u status := by
  have hrun := (orderly_initial db storage).run_invariant
    (I := fun s => s.OnlyIngests ∧ ∀ {q t u records status},
      s.procs q = some ⟨.ingest t u records, status⟩ → s.Attested q u status) ?_
    ⟨nofun, nofun⟩ hruns
  · exact hrun.2.2 hproc
  rintro s s' l horderly ⟨hall, hattested⟩ hok hstep
  have hmove := move_of_step hstep
  refine ⟨hall.step hok hmove, fun {q t u records status} hproc' => ?_⟩
  rcases hmove.creator_before hproc' (List.mem_singleton.mpr rfl) with ⟨status₀, hbefore⟩ | hnew
  · exact (hattested hbefore).step horderly hall hok hmove hbefore hproc'
  · exact attested_of_not_issued horderly hall hok hmove hproc' hnew

/-! ## The committed state -/

/-- With unique keys, the row of a batch is the one that is found under its id. -/
theorem batch_eq_of_mem {db : Db} (hkeys : db.keys.Nodup) {batch : IngestionBatch}
    (hmem : batch ∈ db.batches) : db.batch batch.id = some batch := by
  have hnodup : (db.batches.map fun b => Key.batch b.id).Nodup :=
    hkeys.of_append_left.of_append_left.of_append_left
  have hkey : Key.batch batch.id ∈ db.keys := (mem_keys_batch db).mpr (List.mem_map.mpr ⟨_, hmem, rfl⟩)
  obtain ⟨found, hfound⟩ := Option.isSome_iff_exists.mp ((batch_isSome_iff db).mpr hkey)
  have hid : found.id = batch.id := by simpa using List.find?_some hfound
  have heq : found = batch :=
    List.inj_on_of_nodup_map hnodup (List.mem_of_find?_eq_some hfound) hmem (congrArg Key.batch hid)
  rw [← heq]
  exact heq ▸ hfound

/-- In every state of a run of ingestions: no two committed rows have the same key; a committed
batch of an ingestion is completed and owns a row; an ingestion that has not committed has left
nothing; and one that has returned has reported the number of committed rows with the id of its
batch. -/
theorem concurrent_ingestions {db : Db} {storage : ObjectKey → Option Bytes}
    (hkeys : db.keys.Nodup) (hruns : Runs cfg Synchronous (initial db storage) s) :
    s.world.db.keys.Nodup ∧ ∀ q t u records status,
      s.procs q = some ⟨.ingest t u records, status⟩ →
      (∀ batch ∈ s.world.db.batches, batch.id = u →
        batch.status = .completed ∧ s.world.db.referenceOf u ≠ []) ∧
      ((∀ ws, Event.commit q ws ∉ s.world.history) → s.world.db.Vacant u) ∧
      ∀ response, status = .returned response → ∃ reply : IngestionResponse,
        response = .ingested reply ∧ reply.createdCount = (s.world.db.referenceOf u).length := by
  have hnodup := keys_nodup_of_runs hkeys hruns
  refine ⟨hnodup, fun q t u records status hproc => ?_⟩
  have hattested := attested_of_runs hruns hproc
  refine ⟨?_, hattested.uncommitted, fun response hresponse => ?_⟩
  · rintro batch hmem rfl
    rcases hattested.whole with hvacant | ⟨n, hingested⟩
    · exact absurd ((mem_keys_batch _).mpr (List.mem_map.mpr ⟨batch, hmem, rfl⟩)) hvacant.batch
    · obtain ⟨batch', hbatch', hcompleted, -⟩ := hingested.completed
      obtain rfl := Option.some.inj ((batch_eq_of_mem hnodup hmem).symm.trans hbatch')
      refine ⟨hcompleted, fun hnil => ?_⟩
      have hrows := hingested.rows
      have hpos := hingested.pos
      rw [hnil, List.length_nil] at hrows
      omega
  · obtain ⟨reply, hreply, hcounted⟩ := hattested.counted response hresponse
    exact ⟨reply, hreply, hcounted.length_eq.symm⟩

/-- Two ingestions claim the id 5, and the second has to wait for the first. -/
def overlappingRun : List Label :=
  [.arrive 0 (.ingest .departments 8 [⟨5, "A"⟩]),
    .arrive 1 (.ingest .departments 9 [⟨5, "B"⟩, ⟨6, "C"⟩]), .call 0 .calm, .call 1 .calm] ++
    List.replicate 3 (.call 0 .calm) ++ [.finish 0 2] ++ List.replicate 10 (.call 1 .calm) ++
    [.finish 1 2]

/-- A test for steps of ingestions in which nothing raises. -/
def calmIngestion (_ : Service) : Label → Bool
  | .arrive _ (.ingest _ _ records) => records ≠ []
  | .arrive .. => false
  | .call _ c => c.fault.isNone
  | _ => true

theorem synchronous_of_calmIngestion (s : Service) (l : Label) (h : calmIngestion s l = true) :
    Synchronous s l := by
  refine ⟨?_, ?_⟩
  · rintro q request rfl
    cases request with
    | ingest t u records => exact ⟨t, u, records, rfl, of_decide_eq_true h⟩
    | _ => cases h
  · rintro q c f rfl hf
    simp [calmIngestion, hf] at h

/-- What a process that has returned from an ingestion has reported. -/
def ingestedAt (s : Service) (q : Pid) : Option (Request × IngestionResponse) :=
  match s.procs q with
  | some ⟨request, .returned (.ingested reply)⟩ => some (request, reply)
  | _ => none

theorem concurrent_ingestions_sample :
    ∃ s, (initial sampleDb fun _ => none).follow sampleSettings calmIngestion overlappingRun =
        some s ∧ s.world.db.keys.Nodup ∧
      (∀ batch ∈ s.world.db.batches, batch.id = 9 →
        batch.status = .completed ∧ s.world.db.referenceOf 9 ≠ []) ∧
      1 = (s.world.db.referenceOf 9).length := by
  have hend : ((initial sampleDb fun _ => none).follow sampleSettings calmIngestion
      overlappingRun).map (fun s => s.ingestedAt 1) =
      some (some (.ingest .departments 9 [⟨5, "B"⟩, ⟨6, "C"⟩], ⟨1, ["5:B"]⟩)) := by
    decide +kernel
  obtain ⟨s, hs, hreported⟩ := Option.map_eq_some_iff.mp hend
  have hproc : s.procs 1 = some ⟨.ingest .departments 9 [⟨5, "B"⟩, ⟨6, "C"⟩],
      .returned (.ingested ⟨1, ["5:B"]⟩)⟩ := by
    unfold ingestedAt at hreported
    split at hreported
    · rename_i hproc
      cases hreported
      exact hproc
    · cases hreported
  obtain ⟨hkeys, hall⟩ := concurrent_ingestions (by decide)
    (runs_of_test synchronous_of_calmIngestion hs)
  obtain ⟨hwhole, -, hcounted⟩ := hall 1 _ _ _ _ hproc
  obtain ⟨reply, hreply, hcount⟩ := hcounted _ rfl
  cases hreply
  exact ⟨s, hs, hkeys, hwhole, hcount⟩

end Service

end HiringService
