import HiringService.Contracts.BatchLedger
import HiringService.Service.Batch
import HiringService.Service.Deposits

/-!
# The service keeps a ledger

Every run of the service refines the ledger: whatever raises, whoever is cut off and however the
calls interleave, the committed database is what a legal list of entries leads to, and each entry is
one that the process which has made it may make. So rows are never changed or removed, and the rows
of a batch come from the request that created it, or from its file.
-/

namespace HiringService

open Effect (Program)
open Ledger (Entry Leads Grows)

/-- A request owns one batch at most. -/
theorem Request.Owns.unique {request : Request} {b b' : BatchId} (h : request.Owns b)
    (h' : request.Owns b') : b' = b := by
  cases request with
  | getBatchStatus => exact h.elim
  | getMetric => exact h.elim
  | _ => exact h'.symm.trans h

/-- When an upload returns, its batch exists and is empty. -/
def scribePost : Request → Except Exn Response → World → Prop
  | .ingestEmployees u _, .ok _, w => Logged u [] w.db
  | _, _, _ => True

namespace Service

variable {cfg : Settings} {s s' : Service} {l : Label} {file : Bytes} {request : Request}

/-- If the request is a worker, `file` is what was uploaded for its batch. -/
def FileOf (s : Service) (request : Request) (file : Bytes) : Prop :=
  ∀ b, request = .processEmployees b →
    ∃ p, s.procs p = some ⟨.ingestEmployees b file, .returned (.accepted b)⟩

/-- The process `q` has made an entry that its request may make. -/
def Signed (s : Service) (q : Pid) (e : Entry) : Prop :=
  ∃ request status file, s.procs q = some ⟨request, status⟩ ∧ s.FileOf request file ∧
    request.Makes file e

/-- The file of a batch stays the same. -/
theorem FileOf.step (h : s.FileOf request file) (hmove : Move cfg s l s') :
    s'.FileOf request file := by
  intro b hb
  obtain ⟨p, hupload⟩ := h b hb
  exact ⟨p, (hmove.turn p).returned hupload⟩

/-- A worker that is there already works on the same file. -/
theorem FileOf.before (h : s'.FileOf request file) (hregistered : s.Registered)
    (hregistered' : s'.Registered) (hmove : Move cfg s l s') {q : Pid} {status : Status}
    (hproc : s.procs q = some ⟨request, status⟩) : s.FileOf request file := by
  intro b hb
  subst hb
  obtain ⟨p, hupload'⟩ := h b rfl
  obtain ⟨p₀, file₀, hupload⟩ := hregistered.upload hproc
  have hkept := (hmove.turn p₀).returned hupload
  obtain rfl := hregistered'.creator hupload' hkept (List.mem_singleton.mpr rfl)
    (List.mem_singleton.mpr rfl)
  cases hupload'.symm.trans hkept
  exact ⟨p, hupload⟩

/-- The file of a worker is the object of its batch. -/
theorem FileOf.stored (h : s.FileOf request file) (hdeposited : s.Deposited cfg) (b : BatchId)
    (hb : request = .processEmployees b) : s.world.storage (employeesKey cfg b) = some file := by
  obtain ⟨p, hupload⟩ := h b hb
  exact (hdeposited hupload).resolve_right fun hnone => hnone.2.2

/-! ## Every running process keeps the ledger -/

/-- Every running process has the contract of its request. -/
def Scribed (cfg : Settings) (s : Service) : Prop :=
  ∀ {q request rest}, s.procs q = some ⟨request, .running rest⟩ → ∀ file, s.FileOf request file →
    rest.Ensures ((scribes cfg file request).env q) (scribePost request) s.world

/-- A request starts with its contract. -/
theorem ensures_scribed_program {q : Pid} {w : World} (hown : w.server.own q = [])
    (hvacant : ∀ u ∈ request.fresh, w.db.Vacant u)
    (hworker : ∀ b, request = .processEmployees b → Logged b [] w.db ∧
      w.storage (employeesKey cfg b) = some file) :
    (request.program cfg).Ensures ((scribes cfg file request).env q) (scribePost request) w := by
  cases request with
  | ingest t u records =>
      have hs : Holding q (fun db => db.Vacant u) (Writing []) w :=
        ⟨hvacant u (List.mem_singleton.mpr rfl), writing_nil.mpr hown⟩
      have hexecute : (ingest t u records).Ensures
          ((scribes cfg file (.ingest t u records)).env q) (fun _ _ => True) w := by
        cases t <;> exact ingest_scribes hs
      refine Program.Ensures.bind (hexecute.mono fun {r _} _ => ?_)
      cases r <;> exact fun _ _ => trivial
  | ingestEmployees u file' =>
      have hs : Holding q (fun db => db.Vacant u) (Writing []) w :=
        ⟨hvacant u (List.mem_singleton.mpr rfl), writing_nil.mpr hown⟩
      have hkeep : (scribes cfg file (.ingestEmployees u file')).Keep (Logged u []) :=
        keep_logged rfl
      refine Program.Ensures.bind ((upload_scribes hs).mono fun {r t} h => ?_)
      cases r with
      | ok b => exact Program.ensures_pure (stable_db hkeep) (h b rfl)
      | error e => exact fun _ _ => trivial
  | processEmployees b =>
      obtain ⟨hlogged, hfile⟩ := hworker b rfl
      refine Program.Ensures.bind ((streamAndProcess_scribes ⟨hlogged, writing_nil.mpr hown⟩
        hfile).mono fun {r _} _ => ?_)
      cases r <;> exact fun _ _ => trivial
  | getBatchStatus b =>
      refine Program.Ensures.bind ((getBatchStatus_scribes hown).mono fun {r _} _ => ?_)
      cases r <;> exact fun _ _ => trivial
  | getMetric metric =>
      refine (ensures_of_uses_scribes ?_).mono fun _ => trivial
      exact (uses_program cfg _).mono fun op hop hcommit => by
        subst hcommit
        exact hop.elim

/-- What other processes do is interference that the contract of a request allows for. -/
theorem Orderly.foreign_scribes (h : s.Orderly cfg) {q : Pid} {rest : Prog Response}
    {actor : Option Pid} {w : World} (hproc : s.procs q = some ⟨request, .running rest⟩)
    (hne : actor ≠ some q) (hshift : Shift s l actor w) :
    Foreign q (scribes cfg file request).allowed (scribes cfg file request).frozen s.world w := by
  by_cases howner : ∃ b, request.Owns b
  · obtain ⟨b, howns⟩ := howner
    refine h.foreign hproc howns hne hshift (fun wr havoids b' howns' => ?_)
      (fun p _ b' howns' => ?_) ?_
    · rw [howns.unique howns']
      exact Or.inl havoids
    · rw [howns.unique howns']
      exact Or.inr rfl
    · rintro key ⟨b', rfl, rfl⟩
      rw [show b = b' from howns.symm]
  · refine hshift.foreign hne (fun _ _ _ _ b howns => absurd ⟨b, howns⟩ howner) ?_
    rintro p request' key file' k - - ⟨b, rfl, -⟩
    exact howner ⟨b, rfl⟩

/-- One step: the process that moves signs what it commits, and the others go on. -/
theorem Scribed.step (h : s.Scribed cfg) (horderly : s.Orderly cfg)
    (hdeposited' : s'.Deposited cfg) (hstep : s.step cfg l = some s') : s'.Scribed cfg := by
  have hmove := move_of_step hstep
  have hregistered' := (horderly.step hstep).registered
  intro q request rest hproc' file hfile'
  rcases hmove.turn q with ⟨hsame, hne, hshift⟩ | ⟨hnew, hproc, hne, hshift, hstarts⟩ |
    ⟨hlabel, hproc, hexec, hnext⟩ | ⟨-, hnext, hends, -⟩
  · rw [hsame] at hproc'
    have hfile := hfile'.before horderly.registered hregistered' hmove hproc'
    exact (h hproc' file hfile).interfere (horderly.foreign_scribes hproc' hne hshift)
  · cases hproc.symm.trans hproc'
    refine ensures_scribed_program ?_ (fun u hu => ?_) fun b hb => ⟨?_, hfile'.stored hdeposited' b hb⟩
    · rw [hshift.own hne]
      exact horderly.tidy.own_of_none hnew
    · exact horderly.registered.vacant_step horderly.tidy hmove (hstarts.not_issued hu).2.1
    · -- the worker starts when its upload has returned
      subst hb
      obtain ⟨p, file₀, -, hupload, -, hworld⟩ := hstarts.upload_of_worker horderly.tidy
      have hlogged : Logged b [] s.world.db := (h hupload file₀ nofun).returned
      rw [hworld]
      exact hlogged
  · cases hnext.symm.trans hproc'
    exact ((h hproc file (hfile'.before horderly.registered hregistered' hmove hproc)).step trivial
      hexec).2
  · cases hnext.symm.trans hproc'
    cases hends

/-! ## What a step enters -/

/-- What a process publishes is one entry of the ledger. -/
theorem Scribed.entry (h : s.Scribed cfg) (hregistered : s.Registered) (hmove : Move cfg s l s')
    {q : Pid} (hpublishes : s.Publishes l q request) : s'.world.db = s.world.db ∨
      ∃ e file, s.FileOf request file ∧ request.Makes file e ∧ e.Legal s.world.db ∧
        s'.world.db = e.apply s.world.db ∧ request.Sourced file s'.world.db := by
  obtain ⟨c, k, rfl, hproc⟩ := hpublishes
  have hfile : ∃ file, s.FileOf request file := by
    cases request with
    | processEmployees b =>
        obtain ⟨p, file, hupload⟩ := hregistered.upload hproc
        exact ⟨file, fun b' hb' => by cases hb'; exact ⟨p, hupload⟩⟩
    | _ => exact ⟨[], nofun⟩
  obtain ⟨file, hfile⟩ := hfile
  cases hmove with
  | call hproc' hexec =>
      cases hproc'.symm.trans hproc
      rcases ((h hproc file hfile).step trivial hexec).1 with hsame | ⟨e, hentry⟩
      · exact Or.inl hsame
      · exact Or.inr ⟨e, file, hfile, hentry⟩

/-- The rows of a batch that a step avoids stay as they are. -/
theorem referenceRowsOf_foldl {db : Db} {ws : List Write} {u : BatchId}
    (hws : ∀ wr ∈ ws, wr.Avoids u ∨ wr = .updateBatch u .failed []) (t : ReferenceTable) :
    (ws.foldl Db.apply db).referenceRowsOf t u = db.referenceRowsOf t u := by
  induction ws generalizing db with
  | nil => rfl
  | cons wr ws ih =>
      rw [List.foldl_cons, ih fun wr' h' => hws wr' (List.mem_cons_of_mem wr h')]
      rcases hws wr List.mem_cons_self with havoids | rfl
      · cases wr with
        | insertReference t' rows =>
            have hnil : rows.filter (fun r => r.batchId = u) = [] :=
              List.filter_eq_nil_iff.mpr fun r hr => by simpa using havoids r hr
            rw [Db.referenceRowsOf, apply_insertReference_reference, List.filter_append]
            split
            · rw [hnil, List.append_nil]
              rfl
            · rw [List.filter_nil, List.append_nil]
              rfl
        | _ => cases t <;> rfl
      · cases t <;> rfl

/-- The rows of the batches of all requests come from their records. -/
def AllSourced (s : Service) : Prop :=
  ∀ {q request status}, s.procs q = some ⟨request, status⟩ → ∀ file, s.FileOf request file →
    request.Sourced file s.world.db

/-- The batch of a request that has just started has no rows. -/
theorem sourced_of_vacant {db : Db} (hvacant : ∀ u ∈ request.fresh, db.Vacant u)
    (hworker : ∀ b, request = .processEmployees b → Logged b [] db) : request.Sourced file db := by
  cases request with
  | ingest t u records =>
      intro t'
      have hnil : db.referenceRowsOf t' u = [] := List.filter_eq_nil_iff.mpr fun r hr => by
        simpa using (hvacant u (List.mem_singleton.mpr rfl)).reference t' r hr
      rw [hnil]
      exact List.nil_sublist _
  | ingestEmployees u file' =>
      rw [Request.Sourced, (hvacant u (List.mem_singleton.mpr rfl)).rowsOf_eq_nil]
      exact List.nil_sublist _
  | processEmployees b =>
      exact (hworker b rfl).rows.trans (List.nil_sublist _)
  | _ => trivial

/-- A step keeps where the rows of a batch come from. -/
theorem AllSourced.step_of_proc (h : s.AllSourced) (hscribed : s.Scribed cfg)
    (horderly : s.Orderly cfg) (hmove : Move cfg s l s') {q : Pid} {status : Status}
    (hproc : s.procs q = some ⟨request, status⟩) (hfile : s.FileOf request file) :
    request.Sourced file s'.world.db := by
  have hbefore := h hproc file hfile
  by_cases howner : ∃ b, request.Owns b
  swap
  · cases request with
    | getBatchStatus => trivial
    | getMetric => trivial
    | _ => exact absurd ⟨_, rfl⟩ howner
  obtain ⟨b, howns⟩ := howner
  rcases horderly.db_step hmove b with ⟨q', request', hpublishes, howns', -⟩ | ⟨ws, hdb, hws⟩
  · rcases hscribed.entry horderly.registered hmove hpublishes with
      hsame | ⟨e, file', hfile', -, -, -, hsourced⟩
    · rw [hsame]
      exact hbefore
    obtain ⟨c, k, -, hproc'⟩ := hpublishes
    rcases horderly.registered.sole_owner hproc hproc' howns howns' with
      rfl | ⟨file₀, rfl, hstatus⟩
    · -- the owner itself has published
      cases hproc.symm.trans hproc'
      cases request with
      | processEmployees b' =>
          obtain ⟨p, hupload⟩ := hfile b' rfl
          obtain ⟨p', hupload'⟩ := hfile' b' rfl
          obtain rfl := horderly.registered.creator hupload hupload' (List.mem_singleton.mpr rfl)
            (List.mem_singleton.mpr rfl)
          cases hupload.symm.trans hupload'
          exact hsourced
      | _ => exact hsourced
    · -- the worker of an upload that has returned has published
      rcases howns'.fresh_or with hfresh | rfl
      · obtain rfl := horderly.registered.creator hproc hproc' (List.mem_singleton.mpr rfl) hfresh
        cases hproc.symm.trans hproc'
        cases hstatus
      · obtain ⟨p', hupload'⟩ := hfile' b rfl
        obtain rfl := horderly.registered.creator hproc hupload' (List.mem_singleton.mpr rfl)
          (List.mem_singleton.mpr rfl)
        cases hproc.symm.trans hupload'
        exact hsourced
  · have hall : ∀ wr ∈ ws, wr.Avoids b ∨ wr = .updateBatch b .failed [] :=
      fun wr hwr => hws.elim (fun h => Or.inl (h wr hwr)) fun h => h.2 wr hwr
    have hspares : ∀ wr ∈ ws, wr.Spares (fun _ => True) b := by
      intro wr hwr
      rcases hall wr hwr with havoids | rfl
      · exact havoids.spares _
      · exact fun _ => trivial
    have hrows : (ws.foldl Db.apply s.world.db).rowsOf b = s.world.db.rowsOf b :=
      rowsOf_foldl_of_spares hspares
    cases request with
    | ingest t u records =>
        obtain rfl : u = b := howns
        intro t'
        rw [hdb, referenceRowsOf_foldl hall t']
        exact hbefore t'
    | ingestEmployees u file' =>
        obtain rfl : u = b := howns
        rw [Request.Sourced, hdb, hrows]
        exact hbefore
    | processEmployees b' =>
        obtain rfl : b' = b := howns
        rw [Request.Sourced, hdb, hrows]
        exact hbefore
    | _ => exact howns.elim

/-- One step: what is committed comes from the records of the request that commits it. -/
theorem AllSourced.step (h : s.AllSourced) (hscribed : s.Scribed cfg) (horderly : s.Orderly cfg)
    (hstep : s.step cfg l = some s') : s'.AllSourced := by
  have hmove := move_of_step hstep
  have hregistered' := (horderly.step hstep).registered
  intro q request status' hproc' file hfile'
  rcases (hmove.turn q).origin hproc' with ⟨⟨request, status⟩, hproc, rfl⟩ | ⟨hnew, hstarts⟩
  · exact h.step_of_proc hscribed horderly hmove hproc
      (hfile'.before horderly.registered hregistered' hmove hproc)
  · refine sourced_of_vacant (fun u hu => ?_) fun b hb => ?_
    · exact horderly.registered.vacant_step horderly.tidy hmove (hstarts.not_issued hu).2.1
    · subst hb
      obtain ⟨p, file₀, -, hupload, -, hworld⟩ := hstarts.upload_of_worker horderly.tidy
      have hlogged : Logged b [] s.world.db := (hscribed hupload file₀ nofun).returned
      rw [hworld]
      exact hlogged

/-! ## Runs -/

/-- What holds of every state of a run. -/
structure Kept (cfg : Settings) (s : Service) : Prop where
  orderly : s.Orderly cfg
  stores : s.Confined (Request.Stores cfg)
  deposited : s.Deposited cfg
  scribed : s.Scribed cfg
  sourced : s.AllSourced

/-- Before any request there is nothing to keep. -/
theorem kept_initial (db : Db) (storage : ObjectKey → Option Bytes) :
    (initial db storage).Kept cfg :=
  ⟨orderly_initial db storage, nofun, nofun, nofun, nofun⟩

/-- The invariant in one step. -/
theorem Kept.step (h : s.Kept cfg) (hstep : s.step cfg l = some s') : s'.Kept cfg := by
  have hmove := move_of_step hstep
  obtain ⟨horderly, hstores, hdeposited, hscribed, hsourced⟩ := h
  have hdeposited' : s'.Deposited cfg := hdeposited.step horderly hstores hmove
  exact ⟨horderly.step hstep, hstores.step (uses_stores cfg) hmove, hdeposited',
    hscribed.step horderly hdeposited' hstep, hsourced.step hscribed horderly hstep⟩

/-- The invariant in a run. -/
theorem Kept.runs {ok : Service → Label → Prop} (h : s.Kept cfg) (hruns : Runs cfg ok s s') :
    s'.Kept cfg := by
  induction hruns with
  | refl => exact h
  | tail _ hnext ih =>
      obtain ⟨l, -, hl⟩ := hnext
      exact ih.step hl

/-- What has been signed stays signed. -/
theorem Signed.step {q : Pid} {e : Entry} (h : s.Signed q e) (hmove : Move cfg s l s') :
    s'.Signed q e := by
  obtain ⟨request, status, file, hproc, hfile, hmakes⟩ := h
  obtain ⟨⟨request', status'⟩, hproc', rfl⟩ := (hmove.turn q).request hproc
  exact ⟨_, status', file, hproc', hfile.step hmove, hmakes⟩

/-- A step makes no entry or one. -/
theorem Kept.enters (h : s.Kept cfg) (hmove : Move cfg s l s') : s'.world.db = s.world.db ∨
    ∃ q e, s.Signed q e ∧ e.Legal s.world.db ∧ s'.world.db = e.apply s.world.db := by
  have hscribed : s.Scribed cfg := h.scribed
  obtain ⟨actor, hshift⟩ := hmove.shift
  rcases hshift.db with hsame | ⟨q, request, -, hpublishes, -⟩
  · exact Or.inl hsame
  rcases hscribed.entry h.orderly.registered hmove hpublishes with
    hsame | ⟨e, file, hfile, hmakes, hlegal, hdb, -⟩
  · exact Or.inl hsame
  · obtain ⟨_, _, -, hproc⟩ := hpublishes
    exact Or.inr ⟨q, e, ⟨request, _, file, hproc, hfile, hmakes⟩, hlegal, hdb⟩

/-- The service refines the ledger: between any two states of a run, whatever raises, the committed
database changes by a legal list of entries, each of which the process that has made it may make.
So rows are only ever added, and of a batch only the status and the errors change. -/
theorem service_refines_ledger {ok ok' : Service → Label → Prop} {db : Db}
    {storage : ObjectKey → Option Bytes} (hruns : Runs cfg ok (initial db storage) s)
    (hruns' : Runs cfg ok' s s') :
    (∃ ledger : List (Pid × Entry), Leads (ledger.map Prod.snd) s.world.db s'.world.db ∧
      ∀ x ∈ ledger, s'.Signed x.1 x.2) ∧ Grows s.world.db s'.world.db := by
  have hkept := (kept_initial db storage).runs hruns
  have hledger : ∃ ledger : List (Pid × Entry),
      Leads (ledger.map Prod.snd) s.world.db s'.world.db ∧ ∀ x ∈ ledger, s'.Signed x.1 x.2 := by
    induction hruns' with
    | refl => exact ⟨[], rfl, nofun⟩
    | tail hbefore hnext ih =>
        obtain ⟨ledger, hleads, hsigned⟩ := ih
        obtain ⟨l, -, hl⟩ := hnext
        have hmove := move_of_step hl
        have hsigned' := fun x hx => (hsigned x hx).step hmove
        rcases (hkept.runs hbefore).enters hmove with hsame | ⟨q, e, he, hlegal, hdb⟩
        · exact ⟨ledger, by rwa [hsame], hsigned'⟩
        · refine ⟨ledger ++ [(q, e)], ?_, fun x hx => ?_⟩
          · rw [hdb, List.map_append]
            exact hleads.concat hlegal
          · rcases List.mem_append.mp hx with hx | hx
            · exact hsigned' x hx
            · rw [List.mem_singleton.mp hx]
              exact he.step hmove
  obtain ⟨ledger, hleads, hsigned⟩ := hledger
  exact ⟨⟨ledger, hleads, hsigned⟩, hleads.grows⟩

theorem service_refines_ledger_sample :
    ∃ s, (initial sampleDb fun _ => none).follow sampleSettings (fun _ _ => true)
        (clashingUpload ++ clashingWorker) = some s ∧
      (∃ ledger : List (Pid × Entry), Leads (ledger.map Prod.snd) sampleDb s.world.db ∧
        ∀ x ∈ ledger, s.Signed x.1 x.2) ∧ Grows sampleDb s.world.db := by
  have hend : ((initial sampleDb fun _ => none).follow sampleSettings (fun _ _ => true)
      (clashingUpload ++ clashingWorker)).isSome = true := by
    decide +kernel
  obtain ⟨s, hs⟩ := Option.isSome_iff_exists.mp hend
  have hruns : Runs sampleSettings (fun _ _ => True) (initial sampleDb fun _ => none) s :=
    runs_of_test (fun _ _ _ => trivial) hs
  have hnone : Runs sampleSettings (fun _ _ => True) (initial sampleDb fun _ => none)
    (initial sampleDb fun _ => none) := .refl
  exact ⟨s, hs, service_refines_ledger hnone hruns⟩

/-- In every state of a run, whatever raises: the rows of an ingestion's batch are rows of its
records in its table and in their order, each at most once, and the employees of an upload's batch
are records that the parser finds in the uploaded file, in the order of the file. -/
theorem rows_come_from_their_request {ok : Service → Label → Prop} {db : Db}
    {storage : ObjectKey → Option Bytes} (hruns : Runs cfg ok (initial db storage) s) :
    (∀ q t u records status, s.procs q = some ⟨.ingest t u records, status⟩ →
      ∀ t', ((s.world.db.reference t').filter fun r => r.batchId = u).Sublist
        (if t' = t then records.map (ReferenceRecord.toRow u) else [])) ∧
    ∀ p b file status, s.procs p = some ⟨.ingestEmployees b file, status⟩ →
      (s.world.db.rowsOf b).Sublist ((fileRecords file).map (EmployeeRecord.toRow b)) := by
  have hkept := (kept_initial db storage).runs hruns
  exact ⟨fun q t u records status hproc => hkept.sourced hproc [] nofun,
    fun p b file status hproc => hkept.sourced hproc [] nofun⟩

theorem rows_come_from_their_request_sample :
    ∃ s, (initial sampleDb fun _ => none).follow sampleSettings (fun _ _ => true)
        (clashingUpload ++ clashingWorker) = some s ∧ (s.world.db.rowsOf 8).length = 1 ∧
      (s.world.db.rowsOf 8).Sublist ((fileRecords clashingFile).map (EmployeeRecord.toRow 8)) := by
  have hend : ((initial sampleDb fun _ => none).follow sampleSettings (fun _ _ => true)
      (clashingUpload ++ clashingWorker)).map
        (fun s => ((s.world.db.rowsOf 8).length, (s.procs 0).map Process.request)) =
      some (1, some (.ingestEmployees 8 clashingFile)) := by
    decide +kernel
  obtain ⟨s, hs, hfacts⟩ := Option.map_eq_some_iff.mp hend
  obtain ⟨hlength, hrequest⟩ := Prod.mk.inj hfacts
  obtain ⟨⟨_, status⟩, hproc, rfl⟩ := Option.map_eq_some_iff.mp hrequest
  have hruns : Runs sampleSettings (fun _ _ => True) (initial sampleDb fun _ => none) s :=
    runs_of_test (fun _ _ _ => trivial) hs
  exact ⟨s, hs, hlength, (rows_come_from_their_request hruns).2 0 8 _ _ hproc⟩

end Service

end HiringService
