import HiringService.Contracts.Outcomes
import HiringService.Service.Polls

/-!
# How requests have ended

In every run in which the ports raise none of the errors of the code, a request that has ended has
returned or raised what `HiringService.Contracts.Outcomes` says of its program. A poll that has
started when its batch existed finds it, and lets no error of the code out. An upload that has
returned has its task.
-/

namespace HiringService

open Effect (Program)

/-- What a process can still return and raise, or has returned or raised. -/
def Status.Meets (may : (op : Op) → Except Exn (Reply op) → Prop) (P : Response → Prop)
    (E : Exn → Prop) : Status → Prop
  | .running rest => rest.Outcomes may P E
  | .returned response => P response
  | .raised e => E e
  | .cut => True

/-- What is known of a request that has come to a status. -/
def Request.EndsAs (request : Request) : Status → Prop :=
  Status.Meets Op.May request.Replies request.Raises

namespace Service

variable {cfg : Settings} {ok : Service → Label → Prop} {s₀ s s' : Service} {l : Label} {q : Pid}
  {request : Request}

/-- A step of a process whose calls are answered as `may` allows. -/
theorem Turn.meets {may : (op : Op) → Except Exn (Reply op) → Prop} {P : Response → Prop}
    {E : Exn → Prop} (h : Turn cfg s l s' q) (hstart : (request.program cfg).Outcomes may P E)
    (hmay : ∀ {c op k r}, l = .call q c → s.procs q = some ⟨request, .running (.call op k)⟩ →
      exec q c s.world op = some (r, s'.world) → may op r)
    (hbefore : ∀ {status}, s.procs q = some ⟨request, status⟩ → status.Meets may P E)
    {status : Status} (hproc' : s'.procs q = some ⟨request, status⟩) : status.Meets may P E := by
  rcases h with ⟨hsame, -, -⟩ | ⟨-, hproc, -⟩ | ⟨hlabel, hproc, hexec, hproc⟩ |
    ⟨hproc, hended, hends, -⟩
  · exact hbefore (hsame.symm.trans hproc')
  · cases hproc.symm.trans hproc'
    exact hstart
  · rename_i hcalls
    cases hproc.symm.trans hproc'
    exact hbefore hcalls _ (hmay hlabel hcalls hexec)
  · cases hended.symm.trans hproc'
    have hrest := hbefore hproc
    cases hends with
    | returned response => exact hrest
    | raised e => exact hrest
    | cut => trivial

/-- The ports raise none of the errors of the code. -/
def Ported (_ : Service) (l : Label) : Prop :=
  ∀ q c f, l = .call q c → c.fault = some f → f.exn.isDomain = false

theorem Ported.may (hok : Ported s l) {c : Choice} (hlabel : l = .call q c) {op : Op}
    {r : Except Exn (Reply op)} {w : World} (hexec : exec q c s.world op = some (r, w)) : op.May r :=
  may_of_exec (fun f hf => hok q c f hlabel hf) hexec

/-- A process whose calls are answered as `may` allows, in a run from the start. -/
theorem meets_of_runs {may : (op : Op) → Except Exn (Reply op) → Prop} {P : Response → Prop}
    {E : Exn → Prop} {db : Db} {storage : ObjectKey → Option Bytes}
    (hstart : (request.program cfg).Outcomes may P E)
    (hmay : ∀ {s : Service} {l c op k r} {w : World}, ok s l → l = .call q c →
      s.procs q = some ⟨request, .running (.call op k)⟩ → exec q c s.world op = some (r, w) →
      may op r)
    (hruns : Runs cfg ok (initial db storage) s) {status : Status}
    (hproc : s.procs q = some ⟨request, status⟩) : status.Meets may P E := by
  induction hruns generalizing status with
  | refl => cases hproc
  | tail _ hnext ih =>
      obtain ⟨l, hl, hstep⟩ := hnext
      exact ((move_of_step hstep).turn q).meets hstart
        (fun hlabel hcalls hexec => hmay hl hlabel hcalls hexec) ih hproc

theorem concluded_of_runs {db : Db} {storage : ObjectKey → Option Bytes}
    (hok : ∀ s l, ok s l → Ported s l) (hruns : Runs cfg ok (initial db storage) s) {status : Status}
    (hproc : s.procs q = some ⟨request, status⟩) : request.EndsAs status :=
  meets_of_runs (ends_program cfg request)
    (fun hl hlabel _ hexec => (hok _ _ hl).may hlabel hexec) hruns hproc

/-- An upload that has ended has returned its batch, or raised no `HTTPException` if its calls have
raised none. -/
theorem uploaded_of_runs {db : Db} {storage : ObjectKey → Option Bytes} {u : BatchId} {file : Bytes}
    (hok : ∀ s l, ok s l → ∀ c f status, l = .call q c → c.fault = some f →
      s.procs q = some ⟨.ingestEmployees u file, status⟩ → f.exn.isHttp = false)
    (hruns : Runs cfg ok (initial db storage) s) {status : Status}
    (hproc : s.procs q = some ⟨.ingestEmployees u file, status⟩) :
    status.Meets Op.RaisesNoHttp (· = .accepted u) fun e => e.isHttp = false := by
  have hprogram : ((Request.ingestEmployees u file).program cfg).Outcomes Op.RaisesNoHttp
      (· = .accepted u) fun e => e.isHttp = false :=
    Program.Outcomes.bind ((outcomes_ingestEmployees u file).mono
      (fun _ hb => congrArg Response.accepted hb) fun _ => id)
  refine meets_of_runs hprogram ?_ hruns hproc
  rintro s l c op k r w hl hlabel hcalls hexec e rfl
  rcases raised_of_exec hexec with hdatabase | ⟨f, hf, rfl⟩
  · exact isHttp_of_not_isDomain hdatabase
  · exact hok s l hl c f _ hlabel hf hcalls

/-! ## Polls of a batch that exists -/

/-- The calls of a poll find the committed row. -/
theorem PollStage.finds {b : BatchId} {op : Op} {k : Except Exn (Reply op) → Prog Response}
    (h : PollStage cfg ok s₀ s q b (.call op k)) (hbatch : s.world.db.batch b ≠ none) {c : Choice}
    {r : Except Exn (Reply op)} {w : World} (hexec : exec q c s.world op = some (r, w)) :
    op.Finds b r := by
  have hfinds : ∀ {r : Except Exn (Option IngestionBatch)}, s.world.server.writes q = [] →
      exec q c s.world (.batchGet b) = some (r, w) → r ≠ .ok none := by
    rintro r hnil hexec rfl
    exact hbatch ((exec_batchGet hexec (List.map_eq_nil_iff.mp hnil)).2.2 none rfl).symm
  cases h with
  | read hown => exact fun _ => hfinds hown hexec
  | refresh hown => exact fun _ => hfinds hown hexec
  | _ => trivial

/-- A poll that starts after the batch has been committed. -/
theorem found_of_runs (hok : ∀ s l, ok s l → Ported s l) (hkept₀ : s₀.Kept cfg) {b : BatchId}
    {batch : IngestionBatch} (hbatch : s₀.world.db.batch b = some batch) (hnew : s₀.procs q = none)
    (hruns : Runs cfg ok s₀ s) {status : Status}
    (hproc : s.procs q = some ⟨.getBatchStatus b, status⟩) :
    status.Meets (fun op r => op.May r ∧ op.Finds b r) (fun _ => True) fun e => e.isDomain = false := by
  induction hruns generalizing status with
  | refl => cases hnew.symm.trans hproc
  | tail hbefore hnext ih =>
      obtain ⟨l, hl, hstep⟩ := hnext
      have hstart : ((Request.getBatchStatus b).program cfg).Outcomes
          (fun op r => op.May r ∧ op.Finds b r) (fun _ => True) fun e => e.isDomain = false :=
        Program.Outcomes.bind ((outcomes_getBatchStatus b).mono (fun _ _ => trivial) fun _ => id)
      refine ((move_of_step hstep).turn q).meets hstart (fun hlabel hcalls hexec => ?_) ih hproc
      obtain ⟨batch', hbatch', -⟩ := hkept₀.batch_runs hbefore hbatch
      have hstage := pollAt_of_runs hkept₀ hnew hbefore _ hcalls
      exact ⟨(hok _ l hl).may hlabel hexec, PollStage.finds hstage (by simp [hbatch']) hexec⟩

/-! ## Tasks -/

/-- The step in which a request returns starts its task. -/
theorem task_of_step (hstep : s.step cfg l = some s') {response : Response} {next : Request}
    (htask : request.task response = some next)
    (hproc : s.procs q = some ⟨request, .running (.pure response)⟩)
    (hproc' : s'.procs q = some ⟨request, .returned response⟩) :
    ∃ task status, s'.procs task = some ⟨next, status⟩ := by
  have hchanged : s'.procs q ≠ s.procs q := by
    rw [hproc, hproc']
    exact nofun
  have hmem : q ∈ l.pids := by
    by_contra hq
    exact hchanged ((move_of_step hstep).procs_of_notMem hq)
  cases move_of_step hstep with
  | arrive _ hnew =>
      obtain rfl := List.mem_singleton.mp hmem
      cases hnew.symm.trans hproc
  | call hcalls =>
      obtain rfl := List.mem_singleton.mp hmem
      cases hcalls.symm.trans hproc
  | @finish pid task _ _ hends =>
      rcases eq_or_ne q pid with rfl | hne
      · -- the label of an upload names a process that is not in use yet
        simp only [step, hproc, htask] at hstep
        split_ifs at hstep
        exact ⟨task, _, (congrArg (fun s : Service => s.procs task) (Option.some.inj hstep)).symm.trans
          (set_procs_self ..)⟩
      · exact absurd (set_procs_of_ne hne ..) hchanged
  | @schedule pid task _ _ _ hends htask' hne hnew =>
      rcases eq_or_ne q pid with rfl | hne'
      · cases hends.symm.trans hproc
        cases htask'.symm.trans htask
        exact ⟨task, _, set_procs_self ..⟩
      · rcases eq_or_ne q task with rfl | hne''
        · cases hnew.symm.trans hproc
        · exact absurd ((set_procs_of_ne hne'' ..).trans (set_procs_of_ne hne' ..)) hchanged
  | @raise pid task _ _ hends =>
      rcases eq_or_ne q pid with rfl | hne
      · cases hends.symm.trans hproc
      · exact absurd (set_procs_of_ne hne ..) hchanged
  | cut hends =>
      obtain rfl := List.mem_singleton.mp hmem
      rw [set_procs_self] at hproc'
      cases hproc'
  | tick => cases hmem
  | expire => cases hmem

/-- Every task that a response has scheduled has been started. -/
def Scheduled (s : Service) : Prop :=
  ∀ {q request response next}, s.procs q = some ⟨request, .returned response⟩ →
    request.task response = some next → ∃ task status, s.procs task = some ⟨next, status⟩

theorem Scheduled.step (h : s.Scheduled) (hstep : s.step cfg l = some s') : s'.Scheduled := by
  have hmove := move_of_step hstep
  intro q request response next hproc' htask
  have hbefore : s.procs q = some ⟨request, .returned response⟩ →
      ∃ task status, s'.procs task = some ⟨next, status⟩ := by
    intro hproc
    obtain ⟨task, status, htaskproc⟩ := h hproc htask
    obtain ⟨⟨next', status'⟩, htaskproc', hnext⟩ := (hmove.turn task).request htaskproc
    cases hnext
    exact ⟨task, status', htaskproc'⟩
  rcases hmove.turn q with ⟨hsame, -, -⟩ | ⟨-, hproc, -⟩ | ⟨-, -, -, hproc⟩ | ⟨hproc, hended, hends, -⟩
  · exact hbefore (hsame.symm.trans hproc')
  · cases hproc.symm.trans hproc'
  · cases hproc.symm.trans hproc'
  · cases hended.symm.trans hproc'
    cases hends
    exact task_of_step hstep htask hproc hended

theorem scheduled_of_runs {db : Db} {storage : ObjectKey → Option Bytes}
    (hruns : Runs cfg ok (initial db storage) s) : s.Scheduled := by
  induction hruns with
  | refl => exact nofun
  | tail _ hnext ih =>
      obtain ⟨l, -, hstep⟩ := hnext
      exact Scheduled.step ih hstep

/-- A process that has ended stays as it is. -/
theorem returned_of_runs (hruns : Runs cfg ok s₀ s) {response : Response}
    (hproc : s₀.procs q = some ⟨request, .returned response⟩) :
    s.procs q = some ⟨request, .returned response⟩ := by
  induction hruns with
  | refl => exact hproc
  | tail _ hnext ih =>
      obtain ⟨l, -, hstep⟩ := hnext
      exact ((move_of_step hstep).turn q).returned ih

/-- The batch of an upload that has returned exists. -/
theorem batch_of_upload {db : Db} {storage : ObjectKey → Option Bytes}
    (hruns : Runs cfg ok (initial db storage) s) {b : BatchId} {file : Bytes} {response : Response}
    (hproc : s.procs q = some ⟨.ingestEmployees b file, .returned response⟩) :
    ∃ batch, s.world.db.batch b = some batch := by
  induction hruns with
  | refl => cases hproc
  | @tail s s' hbefore hnext ih =>
      obtain ⟨l, -, hstep⟩ := hnext
      have hmove := move_of_step hstep
      have hkept : s.Kept cfg := (kept_initial db storage).runs hbefore
      have hpersists : (∃ batch, s.world.db.batch b = some batch) →
          ∃ batch, s'.world.db.batch b = some batch := by
        rintro ⟨batch, hbatch⟩
        obtain ⟨batch', hbatch', -⟩ := hkept.batch_step hmove hbatch
        exact ⟨batch', hbatch'⟩
      rcases hmove.turn q with ⟨hsame, -, -⟩ | ⟨-, hnext, -⟩ | ⟨-, -, -, hnext⟩ |
        ⟨hrunning, hended, hends, -⟩
      · exact hpersists (ih (hsame.symm.trans hproc))
      · cases hnext.symm.trans hproc
      · cases hnext.symm.trans hproc
      · cases hended.symm.trans hproc
        cases hends
        have hlogged : Logged b [] s.world.db :=
          hkept.scribed hrunning [] nofun _ (Effect.Env.refl _ _)
        exact hpersists (Option.isSome_iff_exists.mp ((batch_isSome_iff _).mpr hlogged.mem))

end Service

end HiringService
