import HiringService.Service.Ingestions
import HiringService.Service.Polls

/-!
# Synchronous ingestions among all other requests

`HiringService.Service.Ingestions` is about runs of ingestions alone. Here everything else runs
beside them: uploads, workers, metrics requests, and polls, which may be asked for any id. A poll
changes the batch of an ingestion only if it finds it pending, and an ingestion commits its batch as
completed or not at all; so a poll that is asked for such an id never writes, and an ingestion that
returns has reported the rows that it has committed.
-/

namespace HiringService

open Effect (Program)

/-! ## A poll that finds nothing to time out -/

/-- The batch does not exist or is not pending. -/
def Db.Decided (db : Db) (u : BatchId) : Prop :=
  ∀ batch, db.batch u = some batch → batch.status ≠ .pending

theorem Db.Vacant.decided {db : Db} {u : BatchId} (h : db.Vacant u) : db.Decided u := by
  intro batch hbatch
  cases h.batch_eq_none.symm.trans hbatch

theorem Db.Whole.decided {db : Db} {u : BatchId} (h : db.Whole u) : db.Decided u := by
  rcases h with hvacant | ⟨n, hingested⟩
  · exact hvacant.decided
  · obtain ⟨batch', hbatch', hcompleted, -⟩ := hingested.completed
    intro batch hbatch
    cases hbatch'.symm.trans hbatch
    rw [hcompleted]
    decide

/-- How far a poll can be that finds its batch decided. -/
inductive Reading (cfg : Settings) (u : BatchId) : Prog Response → Prop
  | read : Reading cfg u (.call (.batchGet u) (afterRead cfg u))
  | answered (response : Response) : Reading cfg u (.pure response)
  | raised (e : Exn) : Reading cfg u (.throw e)

namespace Service

variable {cfg : Settings} {s s' : Service} {l : Label} {q : Pid} {u : BatchId} {t : ReferenceTable}
  {records : List ReferenceRecord}

/-- The poll goes on in this way, and its session has written nothing. -/
theorem Reading.call {op : Op} {k : Except Exn (Reply op) → Prog Response} {w w' : World} {c : Choice}
    {r : Except Exn (Reply op)} (h : Reading cfg u (.call op k)) (hown : w.server.own q = [])
    (hdecided : w.db.Decided u) (hexec : exec q c w op = some (r, w')) :
    w'.server.own q = [] ∧ Reading cfg u (k r) := by
  cases h with
  | read =>
      obtain ⟨-, hown', hfound⟩ := exec_batchGet hexec hown
      refine ⟨hown', ?_⟩
      rcases r with e | (_ | batch)
      · exact .raised e
      · exact .raised _
      · have hsettled := hdecided batch (hfound _ rfl).symm
        rw [afterRead, if_neg hsettled]
        exact .answered _

/-- The batch `u` is that of an ingestion, or its id has not been created yet. -/
def OfIngestion (s : Service) (u : BatchId) : Prop :=
  u ∉ s.issued ∨ ∃ q t records status, s.procs q = some ⟨.ingest t u records, status⟩

/-- An id of an ingestion was one before, or was not in use. -/
theorem OfIngestion.before (h : s'.OfIngestion u) (hmove : Move cfg s l s') : s.OfIngestion u := by
  rcases h with hnew | ⟨q, t, records, status, hproc'⟩
  · exact Or.inl fun hissued => hnew (hmove.mem_issued hissued)
  · rcases hmove.creator_before hproc' (List.mem_singleton.mpr rfl) with ⟨status₀, hproc⟩ | hnew
    · exact Or.inr ⟨q, t, records, status₀, hproc⟩
    · exact Or.inl hnew

/-! ## What is known in every state -/

/-- Ingestions get at least one record, and their calls raise nothing but outages. -/
def Regular (s : Service) (l : Label) : Prop :=
  (∀ q t u records, l = .arrive q (.ingest t u records) → records ≠ []) ∧
    ∀ q c f t u records status, l = .call q c → c.fault = some f →
      s.procs q = some ⟨.ingest t u records, status⟩ → f.exn.isOperational = true

/-- What is known of the batch of an ingestion that has come to `status`. -/
structure Accounted (s : Service) (u : BatchId) (status : Status) : Prop where
  engaged : s.Engaged (Pact.ofIngestion u)
  whole : s.world.db.Whole u
  counted : ∀ response, status = .returned response → ∃ reply : IngestionResponse,
    response = .ingested reply ∧ s.world.db.Counted u reply.createdCount

/-- What is known of all ingestions, and of the polls for their ids. -/
structure Attended (cfg : Settings) (s : Service) : Prop where
  accounted : ∀ {q t u records status},
    s.procs q = some ⟨.ingest t u records, status⟩ → s.Accounted u status
  polls : ∀ {q u rest}, s.OfIngestion u → s.procs q = some ⟨.getBatchStatus u, .running rest⟩ →
    s.world.server.own q = [] ∧ Reading cfg u rest

theorem Attended.decided (h : s.Attended cfg) (horderly : s.Orderly cfg) (hu : s.OfIngestion u) :
    s.world.db.Decided u := by
  rcases hu with hnew | ⟨q, t, records, status, hproc⟩
  · exact (horderly.registered.vacant u hnew).decided
  · exact (h.accounted hproc).whole.decided

/-- A poll for such an id publishes nothing. -/
theorem Attended.not_polls (h : s.Attended cfg) (hu : s.OfIngestion u) :
    ¬ s.Publishes l q (.getBatchStatus u) := by
  rintro ⟨c, k, -, hproc⟩
  obtain ⟨-, hreading⟩ := h.polls hu hproc
  cases hreading

theorem Attended.polls_step (h : s.Attended cfg) (horderly : s.Orderly cfg)
    (hmove : Move cfg s l s') (hu : s'.OfIngestion u) {rest : Prog Response}
    (hproc' : s'.procs q = some ⟨.getBatchStatus u, .running rest⟩) :
    s'.world.server.own q = [] ∧ Reading cfg u rest := by
  have hbefore := hu.before hmove
  rcases hmove.turn q with ⟨hsame, hne, hshift⟩ | ⟨hnew, hproc, hne, hshift, -⟩ |
    ⟨-, hproc, hexec, hproc⟩ | ⟨-, hended, hends, -⟩
  · obtain ⟨hown, hreading⟩ := h.polls hbefore (hsame.symm.trans hproc')
    exact ⟨(hshift.own hne).trans hown, hreading⟩
  · cases hproc.symm.trans hproc'
    rw [program_getBatchStatus]
    exact ⟨(hshift.own hne).trans (horderly.tidy.own_of_none hnew), .read⟩
  · rename_i hcalls
    cases hproc.symm.trans hproc'
    obtain ⟨hown, hreading⟩ := h.polls hbefore hcalls
    exact Reading.call hreading hown (h.decided horderly hbefore) hexec
  · cases hended.symm.trans hproc'
    cases hends

/-! ## The pact of an ingestion -/

/-- The calls of the ingestions of the pact raise nothing but outages. -/
theorem Regular.faithful (hok : Regular s l) : Faithful (Pact.ofIngestion u) s l := by
  rintro q c request op k hlabel hproc ⟨t, records, rfl⟩ f hf
  exact hok.2 q c f t u records _ hlabel hf hproc

theorem Attended.engaged_step (h : s.Attended cfg) (horderly : s.Orderly cfg) (hok : Regular s l)
    (hmove : Move cfg s l s') (hu : s.OfIngestion u) (hengaged : s.Engaged (Pact.ofIngestion u)) :
    s'.Engaged (Pact.ofIngestion u) := by
  refine hengaged.step hmove hok.faithful ?_ ?_
  · rintro q request hnew hstarts ⟨t, records, rfl⟩
    cases hstarts with
    | arrive _ hfresh _ hworld =>
        have hvacant := horderly.registered.vacant u (hfresh u (List.mem_singleton.mpr rfl))
        rw [hworld]
        exact ensures_ingest_program (hok.1 _ _ _ _ rfl) hvacant (horderly.tidy.own_of_none hnew)
    | schedule htask =>
        obtain ⟨_, _, _, -, -, hnext⟩ := Request.task_eq_some htask
        cases hnext
  · rintro q request rest actor hproc ⟨t, records, rfl⟩ hne hshift
    exact horderly.foreign (b := u) hproc rfl hne hshift (fun _ h => h)
      (fun p hpolls => absurd hpolls (h.not_polls hu)) fun _ => False.elim

/-- What a step does to the committed data of such a batch: its ingestion commits, or the batch is
avoided. -/
theorem Attended.db_step (h : s.Attended cfg) (horderly : s.Orderly cfg) (hmove : Move cfg s l s')
    {status : Status} (hproc : s.procs q = some ⟨.ingest t u records, status⟩) :
    s.Publishes l q (.ingest t u records) ∨
      ∃ ws : List Write, s'.world.db = ws.foldl Db.apply s.world.db ∧ ∀ wr ∈ ws, wr.Avoids u := by
  rcases horderly.db_step hmove u with ⟨p, request, ⟨c, k, hlabel, hp⟩, howns, -⟩ | ⟨ws, hdb, hws⟩
  · rcases horderly.registered.sole_owner hproc hp rfl howns with rfl | ⟨file, hrequest, -⟩
    · cases hproc.symm.trans hp
      exact Or.inl ⟨c, k, hlabel, hp⟩
    · cases hrequest
  · rcases hws with havoids | ⟨⟨p, hpolls⟩, -⟩
    · exact Or.inr ⟨ws, hdb, havoids⟩
    · exact absurd hpolls (h.not_polls (Or.inr ⟨q, t, records, status, hproc⟩))

/-- An ingestion that returns in a step has counted what it has committed. -/
theorem counted_of_finish (hengaged : s.Engaged (Pact.ofIngestion u)) (hmove : Move cfg s l s')
    {status : Status} (hproc : s.procs q = some ⟨.ingest t u records, status⟩) {response : Response}
    (hproc' : s'.procs q = some ⟨.ingest t u records, .returned response⟩) :
    status = .returned response ∨ ∃ reply : IngestionResponse,
      response = .ingested reply ∧ s'.world.db.Counted u reply.createdCount := by
  rcases hmove.turn q with ⟨hsame, -, -⟩ | ⟨hnew, -, -⟩ | ⟨-, -, -, hnext⟩ |
    ⟨hrunning, hended, hends, hworld⟩
  · cases hproc.symm.trans (hsame.symm.trans hproc')
    exact Or.inl rfl
  · cases hnew.symm.trans hproc
  · cases hnext.symm.trans hproc'
  · cases hended.symm.trans hproc'
    cases hends
    rw [hworld]
    exact Or.inr (hengaged.returned hrunning ⟨t, records, rfl⟩ response rfl)

theorem Attended.accounted_step (h : s.Attended cfg) (horderly : s.Orderly cfg)
    (hok : Regular s l) (hmove : Move cfg s l s') {status status' : Status}
    (hproc : s.procs q = some ⟨.ingest t u records, status⟩)
    (hproc' : s'.procs q = some ⟨.ingest t u records, status'⟩) : s'.Accounted u status' := by
  have haccounted := h.accounted hproc
  have hbefore : s.Engaged (Pact.ofIngestion u) := haccounted.engaged
  have hengaged : s'.Engaged (Pact.ofIngestion u) :=
    h.engaged_step horderly hok hmove (Or.inr ⟨q, t, records, status, hproc⟩) hbefore
  rcases h.db_step horderly hmove hproc with hpublishes | ⟨ws, hdb, havoids⟩
  · refine ⟨hengaged, hbefore.guar hmove hok.faithful hpublishes ⟨t, records, rfl⟩, ?_⟩
    rintro response rfl
    obtain ⟨c, k, -, hrunning⟩ := hpublishes
    cases hproc.symm.trans hrunning
    exact (counted_of_finish hbefore hmove hproc hproc').resolve_left nofun
  · refine ⟨hengaged, by rw [hdb]; exact haccounted.whole.foldl havoids, ?_⟩
    rintro response rfl
    rcases counted_of_finish hbefore hmove hproc hproc' with rfl | hcounted
    · obtain ⟨reply, hreply, hcounted⟩ := haccounted.counted response rfl
      refine ⟨reply, hreply, ?_⟩
      rw [hdb]
      exact hcounted.foldl havoids
    · exact hcounted

/-- An ingestion that has just been started. -/
theorem Attended.accounted_start (h : s.Attended cfg) (horderly : s.Orderly cfg)
    (hok : Regular s l) (hmove : Move cfg s l s') {status : Status}
    (hproc' : s'.procs q = some ⟨.ingest t u records, status⟩) (hu : u ∉ s.issued) :
    s'.Accounted u status := by
  have hunused : ∀ {p proc}, s.procs p = some proc → u ∉ proc.request.fresh :=
    fun hp hfresh => hu (horderly.registered.issued hp hfresh)
  have hengaged : s.Engaged (Pact.ofIngestion u) := by
    rintro p request rest hproc ⟨t, records, rfl⟩
    exact absurd (List.mem_singleton.mpr rfl) (hunused hproc)
  refine ⟨h.engaged_step horderly hok hmove (Or.inl hu) hengaged,
    Or.inl (horderly.registered.vacant_step horderly.tidy hmove hu), ?_⟩
  rintro response rfl
  -- the process is new, so it has not returned
  rcases (hmove.turn q).origin hproc' with ⟨proc, hproc, hrequest⟩ | ⟨hnew, -⟩
  · exact absurd (by rw [hrequest]; exact List.mem_singleton.mpr rfl) (hunused hproc)
  · rcases hmove.turn q with ⟨hsame, -, -⟩ | ⟨-, hstarted, -⟩ | ⟨-, hproc, -, -⟩ | ⟨hproc, -, -, -⟩
    · cases hnew.symm.trans (hsame.symm.trans hproc')
    · cases hstarted.symm.trans hproc'
    · cases hnew.symm.trans hproc
    · cases hnew.symm.trans hproc

theorem Attended.step (h : s.Attended cfg) (horderly : s.Orderly cfg) (hok : Regular s l)
    (hmove : Move cfg s l s') : s'.Attended cfg where
  accounted := by
    intro q t u records status hproc'
    rcases hmove.creator_before hproc' (List.mem_singleton.mpr rfl) with ⟨status₀, hproc⟩ | hnew
    · exact h.accounted_step horderly hok hmove hproc hproc'
    · exact h.accounted_start horderly hok hmove hproc' hnew
  polls hu hproc' := h.polls_step horderly hmove hu hproc'

theorem attended_of_runs {ok : Service → Label → Prop} {db : Db} {storage : ObjectKey → Option Bytes}
    (hok : ∀ s l, ok s l → Regular s l) (hruns : Runs cfg ok (initial db storage) s) :
    s.Attended cfg :=
  ((orderly_initial db storage).run_invariant (I := Attended cfg)
    (fun horderly hattended hl hstep => hattended.step horderly (hok _ _ hl) (move_of_step hstep))
    ⟨nofun, nofun⟩ hruns).2

end Service

end HiringService
