import HiringService.Contracts.Upload
import HiringService.Sequential.Worker
import HiringService.Service.Pact

/-!
# The life of an employees batch

The pact of a batch concerns its upload and the worker of its file: the upload leaves what the
worker starts from (`Uploaded`), and each of them has its contract among neighbours that avoid the
batch or time it out. Any neighbours that suit both contracts make a pact that every step keeps.
-/

namespace HiringService

open Effect (Program)

/-- The upload and the worker of batch `b`. -/
def Pact.ofBatch (cfg : Settings) (N : Neighbours) (phase : IngestionBatchStatus → Prop)
    (b : BatchId) (file : Bytes) : Pact where
  concerns request := request = .ingestEmployees b file ∨ request = .processEmployees b
  neighbours := N
  post request r w :=
    match request, r with
    | .ingestEmployees .., .ok _ => Uploaded cfg phase b file w
    | _, _ => True

/-- The neighbours suit the contracts of the upload and of the worker. They may do whatever avoids
the batch, and the object of the batch is out of their reach. -/
structure Neighbours.Cradle (N : Neighbours) (cfg : Settings)
    (phase phase' : IngestionBatchStatus → Prop) (b : BatchId) (file : Bytes) : Prop where
  founding : N.Founding phase b
  host : N.Host phase phase' b cfg.employeeChunkSize (some file) []
  avoids : ∀ wr : Write, wr.Avoids b → N.allowed wr
  frozen : ∀ key, N.frozen key ↔ key = employeesKey cfg b

namespace Service

variable {cfg : Settings} {s s' : Service} {l : Label} {N : Neighbours}
  {phase phase' : IngestionBatchStatus → Prop} {b : BatchId} {file : Bytes}

theorem owns_of_concerns {request : Request}
    (h : (Pact.ofBatch cfg N phase b file).concerns request) : request.Owns b := by
  rcases h with rfl | rfl
  · exact rfl
  · exact rfl

/-- An id that is still to be created concerns nobody. -/
theorem Orderly.engaged_of_not_issued (h : s.Orderly cfg) (hb : b ∉ s.issued) :
    s.Engaged (Pact.ofBatch cfg N phase b file) :=
  fun hproc hconcerns =>
    absurd (h.registered.issued_of_owns hproc (owns_of_concerns hconcerns)) hb

/-- The upload starts with its contract, because its id is new. -/
theorem ensures_upload_program {q : Pid} {w : World} (hN : N.Cradle cfg phase phase' b file)
    (hvacant : w.db.Vacant b) (hown : w.server.own q = []) :
    ((Request.ingestEmployees b file).program cfg).Ensures (N.env q)
      ((Pact.ofBatch cfg N phase b file).post (.ingestEmployees b file)) w := by
  have hkey : N.frozen (employeesKey cfg b) := (hN.frozen _).mpr rfl
  refine Program.Ensures.bind ((ensures_ingestEmployees hN.founding hkey file
    ⟨hvacant, writing_nil.mpr hown⟩).mono ?_)
  intro r t h
  cases r with
  | ok u =>
      exact Program.ensures_pure (fun hst ht => stable_uploaded hN.host.toSpare hkey hst ht) (h u rfl)
  | error e => exact Program.ensures_throw (fun _ _ => trivial) trivial

/-- The worker starts with its contract from what the upload has left. -/
theorem ensures_worker_program {q : Pid} {w : World} (hN : N.Cradle cfg phase phase' b file)
    (huploaded : Uploaded cfg phase b file w) (hown : w.server.own q = []) :
    ((Request.processEmployees b).program cfg).Ensures (N.env q)
      ((Pact.ofBatch cfg N phase b file).post (.processEmployees b)) w := by
  have hkey : N.frozen (employeesKey cfg b) := (hN.frozen _).mpr rfl
  refine Program.Ensures.bind ((ensures_streamAndProcess hN.host hkey
    ⟨huploaded.1, writing_nil.mpr hown⟩ huploaded.2).mono ?_)
  intro r t _
  cases r with
  | ok _ => exact Program.ensures_pure (fun _ _ => trivial) trivial
  | error e => exact Program.ensures_throw (fun _ _ => trivial) trivial

/-- A step keeps the pact of a batch, if the polls that publish are allowed to. -/
theorem Orderly.engaged_step (h : s.Orderly cfg) (hN : N.Cradle cfg phase phase' b file)
    (hE : s.Engaged (Pact.ofBatch cfg N phase b file)) (hstep : s.step cfg l = some s')
    (hmay : Faithful (Pact.ofBatch cfg N phase b file) s l)
    (hpoll : ∀ {q request rest}, s.procs q = some ⟨request, .running rest⟩ → request.Owns b →
      ∀ p, s.Publishes l p (.getBatchStatus b) → N.allowed (.updateBatch b .failed []))
    {p : Pid} {status : Status} (hupload : s'.procs p = some ⟨.ingestEmployees b file, status⟩) :
    s'.Engaged (Pact.ofBatch cfg N phase b file) := by
  refine hE.step (move_of_step hstep) hmay ?_ ?_
  · intro q request hnew hstarts hconcerns
    have hown := h.tidy.own_of_none hnew
    rcases hconcerns with rfl | rfl
    · cases hstarts with
      | arrive hroute hfresh _ hworld =>
          rw [hworld]
          exact ensures_upload_program hN
            (h.registered.vacant b (hfresh b (List.mem_singleton.mpr rfl))) hown
      | schedule htask =>
          obtain ⟨_, _, _, -, -, hnext⟩ := Request.task_eq_some htask
          cases hnext
    · obtain ⟨p', file', -, hproc, hreturned, hworld⟩ := hstarts.upload_of_worker h.tidy
      -- it is the worker of the upload that the pact concerns
      obtain ⟨hfile⟩ : Request.ingestEmployees b file' = .ingestEmployees b file := by
        refine ((h.step hstep).registered.owner_of_upload hupload hreturned rfl).resolve_right ?_
        exact nofun
      have hne : q ≠ p' := by
        rintro rfl
        cases hnew.symm.trans hproc
      have huploaded : Uploaded cfg phase b file s.world := hE.returned hproc (Or.inl rfl)
      rw [hworld]
      refine ensures_worker_program hN huploaded ?_
      exact (s.world.server.rollback_own_of_ne hne).trans hown
  · intro q request rest actor hproc hconcerns hne hshift
    have howns := owns_of_concerns hconcerns
    exact h.foreign hproc howns hne hshift hN.avoids (hpoll hproc howns)
      fun key hkey => (hN.frozen key).mp hkey

/-- What a step may do to a batch that has been uploaded: its upload or its worker publishes and
respects the guarantee, a poll may time the batch out, or the batch is avoided. -/
theorem Orderly.batch_step (h : s.Orderly cfg)
    (hE : s.Engaged (Pact.ofBatch cfg N phase b file)) (hstep : s.step cfg l = some s')
    (hmay : Faithful (Pact.ofBatch cfg N phase b file) s l) {p : Pid} {status : Status}
    (hupload : s.procs p = some ⟨.ingestEmployees b file, status⟩) :
    N.guar s.world s'.world ∨
      ∃ ws : List Write, s'.world.db = ws.foldl Db.apply s.world.db ∧
        ((∀ wr ∈ ws, wr.Avoids b) ∨ ((∃ q, s.Publishes l q (.getBatchStatus b)) ∧
          ∀ wr ∈ ws, wr.Avoids b ∨ wr = .updateBatch b .failed [])) := by
  have hmove := move_of_step hstep
  rcases h.db_step hmove b with ⟨q, request, hpublishes, howns, -⟩ | hws
  · obtain ⟨c, k, hlabel, hproc⟩ := hpublishes
    have hconcerns := h.registered.owner_of_upload hupload hproc howns
    exact Or.inl (hE.guar hmove hmay ⟨c, k, hlabel, hproc⟩ hconcerns)
  · exact Or.inr hws

/-- The upload of that file under the batch 8; its worker is then the process 1. -/
def clashingUpload : List Label :=
  [.arrive 0 (.ingestEmployees 8 clashingFile), .call 0 .calm, .call 0 .calm, .call 0 .calm,
    .finish 0 1]

/-- All calls of that worker: the bulk insert fails, and so does the second row. -/
def clashingWorker : List Label := List.replicate 12 (.call 1 .calm)

end Service

end HiringService
