import HiringService.Service.Pact

/-!
# Uploaded files are stored before their batches exist

The upload stores its file before it creates the batch, and no other request writes to the object of
that batch. So whatever raises and whoever is cut off, a batch of an upload that is committed has
its whole file in storage.
-/

namespace HiringService

open Effect (Program)

/-- The request stores nothing but its own file, as the object of its own batch. -/
def Request.Stores (cfg : Settings) (request : Request) (op : Op) : Prop :=
  ∀ key file, op = .uploadFile key file →
    ∃ u, request = .ingestEmployees u file ∧ key = employeesKey cfg u

theorem uses_stores (cfg : Settings) (request : Request) :
    (request.program cfg).Uses (request.Stores cfg) := by
  cases request with
  | ingestEmployees u file =>
      refine Program.Uses.bind (Program.Uses.bind (Program.uses_request ?_) fun _ => ?_)
        fun _ => trivial
      · intro key file' hop
        cases hop
        exact ⟨u, rfl, rfl⟩
      · exact Program.Uses.bind (Program.uses_request nofun) fun _ =>
          Program.Uses.bind (Program.uses_request nofun) fun _ => trivial
  | ingest t u records =>
      refine (uses_program cfg _).mono fun op hop key file hupload => ?_
      subst hupload
      exact hop.elim
  | processEmployees b =>
      refine (uses_program cfg _).mono fun op hop key file hupload => ?_
      subst hupload
      rcases hop with hop | hop
      · exact hop.elim
      · cases hop
  | getBatchStatus b =>
      refine (uses_program cfg _).mono fun op hop key file hupload => ?_
      subst hupload
      exact hop.elim
  | getMetric metric =>
      refine (uses_program cfg _).mono fun op hop key file hupload => ?_
      subst hupload
      exact hop.elim

namespace Service

variable {cfg : Settings} {s s' : Service} {l : Label}

/-- Every running process only makes calls that its request allows. -/
def Confined (allowed : Request → Op → Prop) (s : Service) : Prop :=
  ∀ {q request rest}, s.procs q = some ⟨request, .running rest⟩ → rest.Uses (allowed request)

theorem Confined.step {allowed : Request → Op → Prop}
    (hprograms : ∀ request : Request, (request.program cfg).Uses (allowed request))
    (h : s.Confined allowed) (hmove : Move cfg s l s') : s'.Confined allowed := by
  intro q request rest hproc'
  rcases hmove.turn q with ⟨hsame, -, -⟩ | ⟨-, hproc, -, -, -⟩ | ⟨-, hproc, -, hnext⟩ |
    ⟨-, hnext, hends, -⟩
  · exact h (hsame ▸ hproc')
  · cases hproc.symm.trans hproc'
    exact hprograms _
  · cases hnext.symm.trans hproc'
    exact (h hproc).2 _
  · cases hnext.symm.trans hproc'
    cases hends

/-! ## The invariant -/

/-- How far an upload can be that has not stored its file: it is about to, or it has failed. -/
def Unstored (cfg : Settings) (request : Request) : Status → Prop
  | .running rest => rest = request.program cfg ∨ ∃ e, rest = .throw e
  | .returned _ => False
  | _ => True

/-- The upload `p` of batch `b` has stored its file, or it has not done anything yet. -/
def DepositedAt (cfg : Settings) (s : Service) (p : Pid) (b : BatchId) (file : Bytes)
    (status : Status) : Prop :=
  s.world.storage (employeesKey cfg b) = some file ∨
    (s.world.db.Vacant b ∧ s.world.server.own p = [] ∧
      Unstored cfg (.ingestEmployees b file) status)

/-- What is known of all uploads. -/
def Deposited (cfg : Settings) (s : Service) : Prop :=
  ∀ {p b file status}, s.procs p = some ⟨.ingestEmployees b file, status⟩ →
    s.DepositedAt cfg p b file status

/-- An upload begins by storing its file; if that raises, it ends. -/
theorem program_ingestEmployees (cfg : Settings) (b : BatchId) (file : Bytes) :
    ∃ k, (Request.ingestEmployees b file).program cfg =
        .call (.uploadFile (employeesKey cfg b) file) k ∧
      ∀ e, k (.error e) = .throw e :=
  ⟨_, rfl, fun _ => rfl⟩

/-- Only the upload of a batch writes to the object of the batch. -/
theorem Shift.storage_of_upload {actor : Option Pid} {w : World} (h : Shift s l actor w)
    (hstores : s.Confined (Request.Stores cfg)) (hregistered : s.Registered) {p : Pid} {b : BatchId}
    {file : Bytes} {status : Status}
    (hupload : s.procs p = some ⟨.ingestEmployees b file, status⟩) :
    w.storage (employeesKey cfg b) = s.world.storage (employeesKey cfg b) ∨
      w.storage (employeesKey cfg b) = some file := by
  cases h with
  | call _ hproc hexec =>
      rcases (exec_called hexec).storage (employeesKey cfg b) with hsame | ⟨file', rfl, hstored⟩
      · exact Or.inl hsame
      · obtain ⟨u, rfl, hkey⟩ := (hstores hproc).1 _ _ rfl
        obtain rfl := employeesKey_injective hkey
        obtain rfl := hregistered.creator hupload hproc (List.mem_singleton.mpr rfl)
          (List.mem_singleton.mpr rfl)
        cases hupload.symm.trans hproc
        exact Or.inr hstored
  | close => exact Or.inl rfl
  | still _ _ hstorage => exact Or.inl (by rw [hstorage])

/-- What an upload has stored stays. -/
theorem Orderly.stored_step (h : s.Orderly cfg) (hstores : s.Confined (Request.Stores cfg))
    (hmove : Move cfg s l s') {p : Pid} {b : BatchId} {file : Bytes} {status : Status}
    (hupload : s.procs p = some ⟨.ingestEmployees b file, status⟩)
    (hstored : s.world.storage (employeesKey cfg b) = some file) :
    s'.world.storage (employeesKey cfg b) = some file := by
  obtain ⟨actor, hshift⟩ := hmove.shift
  rcases hshift.storage_of_upload hstores h.registered hupload with hsame | hsame
  · exact hsame.trans hstored
  · exact hsame

/-- While an upload has stored nothing, nobody else works on its batch, so the batch stays vacant
unless the upload itself commits. -/
theorem Orderly.vacant_step (h : s.Orderly cfg) (hmove : Move cfg s l s') {p : Pid} {b : BatchId}
    {file : Bytes} {status : Status}
    (hupload : s.procs p = some ⟨.ingestEmployees b file, status⟩)
    (hreturned : ∀ response, status ≠ .returned response) (hvacant : s.world.db.Vacant b)
    (hcommit : ¬ s.Publishes l p (.ingestEmployees b file)) : s'.world.db.Vacant b := by
  rcases h.db_step hmove b with ⟨q, request, hpublishes, howns, -⟩ | ⟨ws, hdb, hws⟩
  · exfalso
    obtain ⟨c, k, hlabel, hproc⟩ := hpublishes
    rcases h.registered.sole_owner hupload hproc rfl howns with rfl | ⟨file', -, hended⟩
    · cases hupload.symm.trans hproc
      exact hcommit ⟨c, k, hlabel, hproc⟩
    · exact hreturned _ hended
  · rw [hdb]
    refine hvacant.foldl fun wr hwr => ?_
    rcases hws with havoids | ⟨-, hpoll⟩
    · exact Or.inl (havoids wr hwr)
    · exact (hpoll wr hwr).imp_right fun heq => ⟨_, _, heq⟩

theorem Unstored.not_returned {request : Request} {status : Status}
    (h : Unstored cfg request status) (response : Response) : status ≠ .returned response := by
  rintro rfl
  exact h

/-- An upload that has stored nothing is not about to commit. -/
theorem Unstored.not_publishes {p : Pid} {b : BatchId} {file : Bytes} {status : Status}
    (h : Unstored cfg (.ingestEmployees b file) status)
    (hupload : s.procs p = some ⟨.ingestEmployees b file, status⟩) :
    ¬ s.Publishes l p (.ingestEmployees b file) := by
  rintro ⟨c, k, -, hproc⟩
  cases hupload.symm.trans hproc
  obtain ⟨k', hprogram, -⟩ := program_ingestEmployees cfg b file
  rcases h with heq | ⟨e, heq⟩
  · rw [hprogram] at heq
    cases heq
  · cases heq

/-- An upload that a step has just started has not done anything. -/
theorem Orderly.deposited_of_not_issued (h : s.Orderly cfg) (hmove : Move cfg s l s') {p : Pid}
    {b : BatchId} {file : Bytes} {status : Status}
    (hupload : s'.procs p = some ⟨.ingestEmployees b file, status⟩) (hb : b ∉ s.issued) :
    s'.DepositedAt cfg p b file status := by
  have hbefore : ∀ status₀, s.procs p ≠ some ⟨.ingestEmployees b file, status₀⟩ :=
    fun _ hproc => hb (h.registered.issued hproc (List.mem_singleton.mpr rfl))
  rcases hmove.turn p with ⟨hsame, -, -⟩ | ⟨hnew, hproc, hne, hshift, -⟩ | ⟨-, hproc, -, hnext⟩ |
    ⟨hproc, hnext, -, -⟩
  · exact absurd (hsame ▸ hupload) (hbefore status)
  · cases hproc.symm.trans hupload
    refine Or.inr ⟨h.registered.vacant_step h.tidy hmove hb, ?_, Or.inl rfl⟩
    rw [hshift.own hne]
    exact h.tidy.own_of_none hnew
  · cases hnext.symm.trans hupload
    exact absurd hproc (hbefore _)
  · cases hnext.symm.trans hupload
    exact absurd hproc (hbefore _)

theorem Deposited.step (h : s.Deposited cfg) (horderly : s.Orderly cfg)
    (hstores : s.Confined (Request.Stores cfg)) (hmove : Move cfg s l s') : s'.Deposited cfg := by
  intro p b file status' hupload'
  rcases hmove.creator_before hupload' (List.mem_singleton.mpr rfl) with ⟨status, hupload⟩ | hnew
  swap
  · exact horderly.deposited_of_not_issued hmove hupload' hnew
  rcases h hupload with hstored | ⟨hvacant, hown, hunstored⟩
  · exact Or.inl (horderly.stored_step hstores hmove hupload hstored)
  have hvacant' := horderly.vacant_step hmove hupload hunstored.not_returned hvacant
    (hunstored.not_publishes hupload)
  obtain ⟨k', hprogram, hfailed⟩ := program_ingestEmployees cfg b file
  rcases hmove.turn p with ⟨hsame, hne, hshift⟩ | ⟨hnone, -, -, -, -⟩ |
    ⟨-, hproc, hexec, hnext⟩ | ⟨hproc, hnext, hends, hworld⟩
  · cases hupload.symm.trans (hsame ▸ hupload')
    exact Or.inr ⟨hvacant', (hshift.own hne).trans hown, hunstored⟩
  · cases hnone.symm.trans hupload
  · -- the call is that which stores the file
    cases hupload.symm.trans hproc
    cases hnext.symm.trans hupload'
    rcases hunstored with heq | ⟨e, heq⟩
    · rw [hprogram] at heq
      cases heq
      rename_i r
      obtain ⟨-, hown', hstored⟩ := exec_uploadFile hexec
      cases r with
      | ok _ => exact Or.inl (hstored rfl)
      | error e => exact Or.inr ⟨hvacant', hown'.trans hown, Or.inr ⟨e, hfailed e⟩⟩
    · cases heq
  · cases hupload.symm.trans hproc
    cases hnext.symm.trans hupload'
    refine Or.inr ⟨hvacant', ?_, ?_⟩
    · rw [hworld]
      exact s.world.server.rollback_own_self p
    · cases hends with
      | returned response =>
          rcases hunstored with heq | ⟨e, heq⟩
          · rw [hprogram] at heq
            cases heq
          · cases heq
      | raised => trivial
      | cut => trivial

theorem deposited_of_runs {ok : Service → Label → Prop} {db : Db}
    {storage : ObjectKey → Option Bytes} (hruns : Runs cfg ok (initial db storage) s) :
    s.Orderly cfg ∧ s.Deposited cfg := by
  have hrun := (orderly_initial db storage).run_invariant
    (I := fun s => s.Confined (Request.Stores cfg) ∧ s.Deposited cfg) ?_ ⟨nofun, nofun⟩ hruns
  · exact ⟨hrun.1, hrun.2.2⟩
  rintro s s' l horderly ⟨hstores, hdeposited⟩ - hstep
  have hmove := move_of_step hstep
  exact ⟨hstores.step (uses_stores cfg) hmove, hdeposited.step horderly hstores hmove⟩

/-- In every state of a run, whatever raises and whoever is cut off: when the batch of an upload is
committed, and when a worker is at work on it, the object of the batch is the uploaded file. -/
theorem committed_upload_is_stored {ok : Service → Label → Prop} {db : Db}
    {storage : ObjectKey → Option Bytes} (hruns : Runs cfg ok (initial db storage) s) {p : Pid}
    {b : BatchId} {file : Bytes} {status : Status}
    (hupload : s.procs p = some ⟨.ingestEmployees b file, status⟩)
    (hbatch : Key.batch b ∈ s.world.db.keys ∨
      ∃ q status', s.procs q = some ⟨.processEmployees b, status'⟩) :
    s.world.storage (employeesKey cfg b) = some file := by
  obtain ⟨horderly, hdeposited⟩ := deposited_of_runs hruns
  refine (hdeposited hupload).resolve_right ?_
  rintro ⟨hvacant, -, hunstored⟩
  rcases hbatch with hbatch | ⟨q, status', hworker⟩
  · exact hvacant.batch hbatch
  · obtain ⟨p', file', hreturned⟩ := horderly.registered.upload hworker
    obtain rfl := horderly.registered.creator hupload hreturned (List.mem_singleton.mpr rfl)
      (List.mem_singleton.mpr rfl)
    cases hupload.symm.trans hreturned
    exact hunstored

/-- An upload whose commit takes effect without being acknowledged, and which is then cut off. -/
def abandonedUpload : List Label :=
  [.arrive 0 (.ingestEmployees 8 [49]), .call 0 .calm, .call 0 .calm,
    .call 0 { Choice.calm with fault := some ⟨.operational "connection reset", true, true⟩ }, .cut 0]

theorem committed_upload_is_stored_sample :
    ∃ s, (initial ⟨[], [], [], []⟩ fun _ => none).follow ⟨"hiring", 2, 600⟩ (fun _ _ => true)
        abandonedUpload = some s ∧ Key.batch 8 ∈ s.world.db.keys ∧
      s.world.storage ⟨"hiring", "employees/8.csv"⟩ = some [49] := by
  have hend : ((initial ⟨[], [], [], []⟩ fun _ => none).follow ⟨"hiring", 2, 600⟩ (fun _ _ => true)
      abandonedUpload).map (fun s => (s.world.db.keys, (s.procs 0).map Process.request)) =
      some ([.batch 8], some (.ingestEmployees 8 [49])) := by
    decide +kernel
  obtain ⟨s, hs, hfacts⟩ := Option.map_eq_some_iff.mp hend
  obtain ⟨hkeys, hrequest⟩ := Prod.mk.inj hfacts
  obtain ⟨⟨_, status⟩, hproc, rfl⟩ := Option.map_eq_some_iff.mp hrequest
  have hbatch : Key.batch 8 ∈ s.world.db.keys := hkeys ▸ List.mem_singleton.mpr rfl
  have hruns : Runs ⟨"hiring", 2, 600⟩ (fun _ _ => True) (initial ⟨[], [], [], []⟩ fun _ => none) s :=
    runs_of_test (fun _ _ _ => trivial) hs
  exact ⟨s, hs, hbatch, committed_upload_is_stored hruns hproc (Or.inl hbatch)⟩

end Service

end HiringService
