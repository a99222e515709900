import HiringService.Service.Steps

/-!
# What holds in every run of the service

* `Tidy`: a process only makes the calls of its request, and its session holds nothing but writes of
  its request; the session of a process that does not run holds nothing.
* `Registered`: the ids of batches are created once, a worker belongs to one upload that has
  returned, and an id that is still to be created names nothing in the database.

Together they say who can write what: of a batch, only the request that created its id, then the
worker of its file, and the polls that time it out (`sole_owner`, `publishes_avoids`).
-/

namespace HiringService

open Effect (Program)

/-! ## The writes of a request -/

/-- The writes of the statements that a request can make. -/
def Request.Writes (cfg : Settings) (request : Request) (wr : Write) : Prop :=
  ∃ st now, request.Calls cfg (.statement st) ∧ wr = st.write now

/-- The request works on batch `b` from its creation to its end. -/
def Request.Owns (b : BatchId) : Request → Prop
  | .ingest _ u _ => u = b
  | .ingestEmployees u _ => u = b
  | .processEmployees u => u = b
  | _ => False

instance (b : BatchId) : (request : Request) → Decidable (request.Owns b)
  | .ingest _ u _ => inferInstanceAs (Decidable (u = b))
  | .ingestEmployees u _ => inferInstanceAs (Decidable (u = b))
  | .processEmployees u => inferInstanceAs (Decidable (u = b))
  | .getBatchStatus _ => .isFalse id
  | .getMetric _ => .isFalse id

/-- A request that does not own a batch leaves it alone, unless it is a poll that times it out. -/
theorem Request.Writes.avoids_or {cfg : Settings} {request : Request} {wr : Write} {b : BatchId}
    (h : request.Writes cfg wr) (howns : ¬ request.Owns b) :
    wr.Avoids b ∨ (request = .getBatchStatus b ∧ wr = .updateBatch b .failed []) := by
  obtain ⟨st, now, hcalls, rfl⟩ := h
  cases request with
  | ingest t u records =>
      left
      cases st with
      | addBatch id status => exact fun hid => howns (hcalls.1.symm.trans hid)
      | updateStatus id status errors => exact fun hid => howns (hcalls.1.symm.trans hid)
      | insertReference t' rows => exact fun r hr hid => howns ((hcalls.2 r hr).symm.trans hid)
      | insertEmployees rows => exact hcalls.elim
  | ingestEmployees u file =>
      left
      cases st with
      | addBatch id status => exact fun hid => howns (hcalls.1.symm.trans hid)
      | _ => exact hcalls.elim
  | processEmployees u =>
      left
      replace hcalls : Op.OfWriter u (.statement st) := hcalls.resolve_right nofun
      cases st with
      | updateStatus id status errors => exact fun hid => howns (hcalls.symm.trans hid)
      | insertEmployees rows => exact fun r hr hid => howns ((hcalls r hr).symm.trans hid)
      | _ => exact hcalls.elim
  | getBatchStatus u =>
      cases st with
      | updateStatus id status errors =>
          -- a poll updates the batch it was asked for, which it does not own
          obtain ⟨rfl, rfl, rfl⟩ := hcalls
          by_cases hid : id = b
          · subst hid
            exact Or.inr ⟨rfl, rfl⟩
          · exact Or.inl hid
      | _ => exact hcalls.elim
  | getMetric metric => exact hcalls.elim

/-- Whoever owns a batch has created it, or is its worker. -/
theorem Request.Owns.fresh_or {request : Request} {b : BatchId} (h : request.Owns b) :
    b ∈ request.fresh ∨ request = .processEmployees b := by
  cases request with
  | ingest t u records => exact Or.inl (List.mem_singleton.mpr h.symm)
  | ingestEmployees u file => exact Or.inl (List.mem_singleton.mpr h.symm)
  | processEmployees u => exact Or.inr (congrArg _ h)
  | _ => exact h.elim

/-- Only an upload schedules a task: the worker of the batch that it returns. -/
theorem Request.task_eq_some {request next : Request} {response : Response}
    (h : request.task response = some next) : ∃ u file b, request = .ingestEmployees u file ∧
      response = .accepted b ∧ next = .processEmployees b := by
  unfold Request.task at h
  split at h
  · rename_i u file b
    cases h
    exact ⟨u, file, b, rfl, rfl, rfl⟩
  · cases h

namespace Service

variable {cfg : Settings} {s s' : Service} {l : Label}

/-! ## Processes and their sessions -/

/-- What is known of a process that runs `rest` for `request`, with the pending writes `own`. -/
structure InProgress (cfg : Settings) (request : Request) (rest : Prog Response)
    (own : List (Txn.Entry Pid Write)) : Prop where
  uses : rest.Uses (request.Calls cfg)
  returns : rest.Returns request.Answers
  writes : ∀ e ∈ own, request.Writes cfg e.write

/-- What is known of a process and its pending writes. -/
def TidyAt (cfg : Settings) (own : List (Txn.Entry Pid Write)) : Option Process → Prop
  | some ⟨request, .running rest⟩ => InProgress cfg request rest own
  | _ => own = []

/-- What is known of all processes and their sessions. -/
def Tidy (cfg : Settings) (s : Service) : Prop :=
  ∀ q, TidyAt cfg (s.world.server.own q) (s.procs q)

/-- What a running process has pending is what its request may write. -/
theorem Tidy.running (h : s.Tidy cfg) {q : Pid} {request : Request} {rest : Prog Response}
    (hproc : s.procs q = some ⟨request, .running rest⟩) :
    InProgress cfg request rest (s.world.server.own q) := by
  have hq := h q
  rwa [hproc] at hq

/-- A process that does not exist has nothing pending. -/
theorem Tidy.own_of_none (h : s.Tidy cfg) {q : Pid} (hproc : s.procs q = none) :
    s.world.server.own q = [] := by
  have hq := h q
  rwa [hproc] at hq

/-- A process that is not running is tidy when nothing is pending. -/
theorem tidyAt_nil {proc : Option Process}
    (h : ∀ request rest, proc ≠ some ⟨request, .running rest⟩) : TidyAt cfg [] proc := by
  rcases proc with _ | ⟨request, rest | _ | _ | _⟩
  · rfl
  · exact absurd rfl (h request rest)
  · rfl
  · rfl
  · rfl

/-- At first nothing is pending. -/
theorem tidy_initial (db : Db) (storage : ObjectKey → Option Bytes) :
    (initial db storage).Tidy cfg :=
  fun _ => rfl

/-- One step: only the process that moves writes, or its session is closed. -/
theorem Tidy.step (h : s.Tidy cfg) (hstep : s.step cfg l = some s') : s'.Tidy cfg := by
  intro q
  rcases (move_of_step hstep).turn q with ⟨hproc, hne, hshift⟩ |
    ⟨hnew, hproc, hne, hshift, -⟩ | ⟨-, hproc, hexec, hproc'⟩ | ⟨hproc, hproc', hends, hworld⟩
  · rw [hshift.own hne, hproc]
    exact h q
  · rw [hshift.own hne, h.own_of_none hnew, hproc]
    exact ⟨uses_program cfg _, returns_program cfg _, fun _ he => absurd he List.not_mem_nil⟩
  · obtain ⟨huses, hreturns, hwrites⟩ := h.running hproc
    rw [hproc']
    refine ⟨huses.2 _, hreturns _, fun e he => ?_⟩
    rcases (exec_called hexec).mem_own e he with he | ⟨st, rfl, hwrite⟩
    · exact hwrites e he
    · exact ⟨st, _, huses.1, hwrite⟩
  · have hnil : s'.world.server.own q = [] := by
      rw [hworld]
      exact s.world.server.rollback_own_self q
    rw [hnil, hproc']
    refine tidyAt_nil fun request rest hrunning => ?_
    cases hends with
    | _ => cases hrunning

/-! ## Ids -/

/-- What is known of the ids of batches. -/
structure Registered (s : Service) : Prop where
  issued : ∀ {q proc u}, s.procs q = some proc → u ∈ proc.request.fresh → u ∈ s.issued
  creator : ∀ {p q proc proc' u}, s.procs p = some proc → s.procs q = some proc' →
    u ∈ proc.request.fresh → u ∈ proc'.request.fresh → p = q
  upload : ∀ {q b status}, s.procs q = some ⟨.processEmployees b, status⟩ →
    ∃ p file, s.procs p = some ⟨.ingestEmployees b file, .returned (.accepted b)⟩
  worker : ∀ {p q b status status'}, s.procs p = some ⟨.processEmployees b, status⟩ →
    s.procs q = some ⟨.processEmployees b, status'⟩ → p = q
  vacant : ∀ u ∉ s.issued, s.world.db.Vacant u

/-- An id that has been created is not free. -/
theorem Registered.issued_of_owns (h : s.Registered) {q : Pid} {proc : Process} {b : BatchId}
    (hproc : s.procs q = some proc) (howns : proc.request.Owns b) : b ∈ s.issued := by
  rcases howns.fresh_or with hfresh | hworker
  · exact h.issued hproc hfresh
  · obtain ⟨request, status⟩ := proc
    subst hworker
    obtain ⟨p, file, hupload⟩ := h.upload hproc
    exact h.issued hupload (List.mem_singleton.mpr rfl)

/-- Of two processes that own a batch, the second is running only if it is the first, or the worker
of the upload that the first was. -/
theorem Registered.sole_owner (h : s.Registered) {p q : Pid} {request request' : Request}
    {status : Status} {rest : Prog Response} {b : BatchId}
    (hp : s.procs p = some ⟨request, status⟩) (hq : s.procs q = some ⟨request', .running rest⟩)
    (howns : request.Owns b) (howns' : request'.Owns b) :
    p = q ∨ ∃ file, request = .ingestEmployees b file ∧ status = .returned (.accepted b) := by
  rcases howns.fresh_or with hfresh | rfl
  · rcases howns'.fresh_or with hfresh' | rfl
    · exact Or.inl (h.creator hp hq hfresh hfresh')
    · obtain ⟨p', file, hupload⟩ := h.upload hq
      obtain rfl := h.creator hp hupload hfresh (List.mem_singleton.mpr rfl)
      obtain ⟨rfl, rfl⟩ := Process.mk.inj (Option.some.inj (hp.symm.trans hupload))
      exact Or.inr ⟨file, rfl, rfl⟩
  · rcases howns'.fresh_or with hfresh' | rfl
    · obtain ⟨p', file, hupload⟩ := h.upload hp
      obtain rfl := h.creator hq hupload hfresh' (List.mem_singleton.mpr rfl)
      cases hq.symm.trans hupload
    · exact Or.inl (h.worker hp hq)

/-- What a request publishes has nothing to do with a batch that it does not own, unless the request
is a poll that times the batch out. -/
theorem Tidy.publishes_avoids (h : s.Tidy cfg) {q : Pid} {request : Request} {b : BatchId}
    (hpublishes : s.Publishes l q request) (howns : ¬ request.Owns b) :
    ∀ e ∈ s.world.server.own q,
      e.write.Avoids b ∨ (request = .getBatchStatus b ∧ e.write = .updateBatch b .failed []) := by
  obtain ⟨c, k, -, hproc⟩ := hpublishes
  exact fun e he => ((h.running hproc).writes e he).avoids_or howns

/-- A process of the next state is one of this state, or it has just been started. -/
theorem Turn.origin {q : Pid} {proc' : Process} (h : Turn cfg s l s' q)
    (hproc' : s'.procs q = some proc') :
    (∃ proc, s.procs q = some proc ∧ proc.request = proc'.request) ∨
      (s.procs q = none ∧ Starts s s' l q proc'.request) := by
  cases h with
  | beside hproc => exact Or.inl ⟨proc', hproc ▸ hproc', rfl⟩
  | starts hnew hproc _ _ hstarts =>
      cases hproc.symm.trans hproc'
      exact Or.inr ⟨hnew, hstarts⟩
  | calls _ hproc _ hnext =>
      cases hnext.symm.trans hproc'
      exact Or.inl ⟨_, hproc, rfl⟩
  | ends hproc hnext =>
      cases hnext.symm.trans hproc'
      exact Or.inl ⟨_, hproc, rfl⟩

/-- A process that has ended stays as it is. -/
theorem Turn.returned {q : Pid} {request : Request} {response : Response} (h : Turn cfg s l s' q)
    (hproc : s.procs q = some ⟨request, .returned response⟩) :
    s'.procs q = some ⟨request, .returned response⟩ := by
  cases h with
  | beside hsame => exact hsame.trans hproc
  | starts hnew => cases hnew.symm.trans hproc
  | calls _ hrunning => cases hrunning.symm.trans hproc
  | ends hrunning _ hends => cases hrunning.symm.trans hproc

/-- No process is forgotten, and none changes its request. -/
theorem Turn.request {q : Pid} {proc : Process} (h : Turn cfg s l s' q)
    (hproc : s.procs q = some proc) :
    ∃ proc', s'.procs q = some proc' ∧ proc'.request = proc.request := by
  cases h with
  | beside hsame => exact ⟨proc, hsame.trans hproc, rfl⟩
  | starts hnew => cases hnew.symm.trans hproc
  | calls _ hrunning _ hnext =>
      cases hrunning.symm.trans hproc
      exact ⟨_, hnext, rfl⟩
  | ends hrunning hnext =>
      cases hrunning.symm.trans hproc
      exact ⟨_, hnext, rfl⟩

/-- A step that starts a request with a new id adds the id to those that are issued. -/
theorem Move.issued (h : Move cfg s l s') : s'.issued = s.issued ∨
    ∃ q request, Starts s s' l q request ∧ s'.issued = request.fresh ++ s.issued := by
  cases h with
  | arrive hroute hnew hfresh => exact Or.inr ⟨_, _, .arrive hroute hfresh rfl rfl, rfl⟩
  | _ => exact Or.inl rfl

/-- Batch ids that have been issued stay issued. -/
theorem Move.mem_issued (h : Move cfg s l s') {u : BatchId} (hu : u ∈ s.issued) : u ∈ s'.issued := by
  rcases h.issued with hsame | ⟨q, request, -, hmore⟩
  · rwa [hsame]
  · rw [hmore]
    exact List.mem_append_right _ hu

theorem registered_initial (db : Db) (storage : ObjectKey → Option Bytes) :
    (initial db storage).Registered where
  issued := nofun
  creator := nofun
  upload := nofun
  worker := nofun
  vacant u hu := by
    simp only [initial, List.mem_append, not_or] at hu
    obtain ⟨⟨⟨hbatch, hdepartments⟩, hjobs⟩, hemployees⟩ := hu
    refine ⟨fun hkey => hbatch ((mem_keys_batch db).mp hkey), fun t r hr hid => ?_, fun r hr hid => ?_⟩
    · cases t with
      | departments => exact hdepartments (List.mem_map.mpr ⟨r, hr, hid⟩)
      | jobs => exact hjobs (List.mem_map.mpr ⟨r, hr, hid⟩)
    · exact hemployees (List.mem_map.mpr ⟨r, hr, hid⟩)

/-- The worker that a step starts is that of an upload which has just returned. -/
theorem Starts.upload_of_worker (hT : s.Tidy cfg) {q : Pid} {b : BatchId}
    (h : Starts s s' l q (.processEmployees b)) : ∃ p file, l = .finish p q ∧
      s.procs p = some ⟨.ingestEmployees b file, .running (.pure (.accepted b))⟩ ∧
      s'.procs p = some ⟨.ingestEmployees b file, .returned (.accepted b)⟩ ∧
      s'.world = s.world.close p := by
  cases h with
  | arrive hroute => cases hroute
  | schedule htask hproc hproc' _ hworld =>
      obtain ⟨u, file, b', rfl, rfl, hnext⟩ := Request.task_eq_some htask
      cases hnext
      have hanswer : Response.accepted b = .accepted u := (hT.running hproc).returns
      cases hanswer
      exact ⟨_, file, rfl, hproc, hproc', hworld⟩

/-- An id that a step creates was not in use. -/
theorem Starts.not_issued {q : Pid} {request : Request} {u : BatchId}
    (h : Starts s s' l q request) (hu : u ∈ request.fresh) :
    l = .arrive q request ∧ u ∉ s.issued ∧ u ∈ s'.issued := by
  cases h with
  | arrive hroute hfresh hissued =>
      refine ⟨rfl, hfresh u hu, ?_⟩
      rw [hissued]
      exact List.mem_append_left _ hu
  | schedule htask =>
      obtain ⟨_, _, b, -, -, rfl⟩ := Request.task_eq_some htask
      cases hu

/-- A request under a new id was there before, or the id was not in use. -/
theorem Move.creator_before (h : Move cfg s l s') {p : Pid} {request : Request} {status : Status}
    (hproc' : s'.procs p = some ⟨request, status⟩) {u : BatchId} (hu : u ∈ request.fresh) :
    (∃ status₀, s.procs p = some ⟨request, status₀⟩) ∨ u ∉ s.issued := by
  rcases (h.turn p).origin hproc' with ⟨⟨request, status₀⟩, hproc, rfl⟩ | ⟨-, hstarts⟩
  · exact Or.inl ⟨status₀, hproc⟩
  · exact Or.inr (hstarts.not_issued hu).2.1

/-- The batch of an upload is only owned by the upload and by the worker of its file. -/
theorem Registered.owner_of_upload (h : s.Registered) {p q : Pid} {b : BatchId} {file : Bytes}
    {status : Status} {proc : Process}
    (hupload : s.procs p = some ⟨.ingestEmployees b file, status⟩) (hproc : s.procs q = some proc)
    (howns : proc.request.Owns b) :
    proc.request = .ingestEmployees b file ∨ proc.request = .processEmployees b := by
  rcases howns.fresh_or with hfresh | hworker
  · obtain rfl := h.creator hupload hproc (List.mem_singleton.mpr rfl) hfresh
    obtain rfl := Option.some.inj (hupload.symm.trans hproc)
    exact Or.inl rfl
  · exact Or.inr hworker

/-- What a step does to the data of a batch that nobody owns. -/
theorem Registered.vacant_step (h : s.Registered) (hT : s.Tidy cfg) (hmove : Move cfg s l s')
    {u : BatchId} (hu : u ∉ s.issued) : s'.world.db.Vacant u := by
  obtain ⟨actor, hshift⟩ := hmove.shift
  rcases hshift.db with hsame | ⟨q, request, -, hpublishes, hpublished⟩
  · rw [hsame]
    exact h.vacant u hu
  · rw [hpublished.db]
    refine (h.vacant u hu).foldl fun wr hwr => ?_
    obtain ⟨e, he, rfl⟩ := List.mem_map.mp hwr
    have howns : ¬ request.Owns u := fun howns => by
      obtain ⟨_, _, -, hproc⟩ := hpublishes
      exact hu (h.issued_of_owns hproc howns)
    exact (hT.publishes_avoids hpublishes howns e he).imp id fun htimeout => ⟨_, _, htimeout.2⟩

/-- One step: a new request has fresh ids, and a new worker those of its upload. -/
theorem Registered.step (h : s.Registered) (hT : s.Tidy cfg) (hstep : s.step cfg l = some s') :
    s'.Registered := by
  have hmove := move_of_step hstep
  refine ⟨?_, ?_, ?_, ?_, ?_⟩
  · -- a request makes an id when it is started
    intro q proc' u hproc' hu
    rcases (hmove.turn q).origin hproc' with ⟨proc, hproc, hsame⟩ | ⟨-, hstarts⟩
    · exact hmove.mem_issued (h.issued hproc (hsame ▸ hu))
    · exact (hstarts.not_issued hu).2.2
  · -- and then the id is new, so no other request has made it
    intro p q proc proc' u hp hq hup huq
    rcases (hmove.turn p).origin hp with ⟨proc₁, hp₁, hsame₁⟩ | ⟨-, hstarts₁⟩ <;>
      rcases (hmove.turn q).origin hq with ⟨proc₂, hq₂, hsame₂⟩ | ⟨-, hstarts₂⟩
    · exact h.creator hp₁ hq₂ (hsame₁ ▸ hup) (hsame₂ ▸ huq)
    · exact absurd (h.issued hp₁ (hsame₁ ▸ hup)) (hstarts₂.not_issued huq).2.1
    · exact absurd (h.issued hq₂ (hsame₂ ▸ huq)) (hstarts₁.not_issued hup).2.1
    · exact (Label.arrive.inj ((hstarts₁.not_issued hup).1.symm.trans
        (hstarts₂.not_issued huq).1)).1
  · intro q b status hproc'
    rcases (hmove.turn q).origin hproc' with ⟨⟨request, status₀⟩, hproc, rfl⟩ | ⟨-, hstarts⟩
    · obtain ⟨p, file, hupload⟩ := h.upload hproc
      exact ⟨p, file, (hmove.turn p).returned hupload⟩
    · obtain ⟨p, file, -, -, hupload, -⟩ := hstarts.upload_of_worker hT
      exact ⟨p, file, hupload⟩
  · -- a worker is only started when its upload returns, and no worker was there before
    have hnone : ∀ {p q b status}, s.procs q = some ⟨.processEmployees b, status⟩ →
        ¬ Starts s s' l p (.processEmployees b) := by
      intro p q b status hq hstarts
      obtain ⟨p₀, file, -, hrunning, -⟩ := hstarts.upload_of_worker hT
      obtain ⟨p₁, file', hreturned⟩ := h.upload hq
      have hfresh : ∀ file, b ∈ (Request.ingestEmployees b file).fresh :=
        fun _ => List.mem_singleton.mpr rfl
      obtain rfl := h.creator hrunning hreturned (hfresh file) (hfresh file')
      cases hrunning.symm.trans hreturned
    intro p q b status status' hp hq
    rcases (hmove.turn p).origin hp with ⟨⟨request₁, status₁⟩, hp₁, rfl⟩ | ⟨-, hstarts₁⟩ <;>
      rcases (hmove.turn q).origin hq with ⟨⟨request₂, status₂⟩, hq₂, rfl⟩ | ⟨-, hstarts₂⟩
    · exact h.worker hp₁ hq₂
    · exact absurd hstarts₂ (hnone hp₁)
    · exact absurd hstarts₁ (hnone hq₂)
    · obtain ⟨p₁, file₁, hl₁, -⟩ := hstarts₁.upload_of_worker hT
      obtain ⟨p₂, file₂, hl₂, -⟩ := hstarts₂.upload_of_worker hT
      exact (Label.finish.inj (hl₁.symm.trans hl₂)).2
  · intro u hu
    refine h.vacant_step hT hmove fun hold => hu (hmove.mem_issued hold)

/-! ## Runs -/

/-- What holds of every state of a run. -/
structure Orderly (cfg : Settings) (s : Service) : Prop where
  tidy : s.Tidy cfg
  registered : s.Registered

theorem orderly_initial (db : Db) (storage : ObjectKey → Option Bytes) :
    (initial db storage).Orderly cfg :=
  ⟨tidy_initial db storage, registered_initial db storage⟩

/-- One step keeps order. -/
theorem Orderly.step (h : s.Orderly cfg) (hstep : s.step cfg l = some s') : s'.Orderly cfg :=
  ⟨h.tidy.step hstep, h.registered.step h.tidy hstep⟩

/-- What holds at the start and is kept by every step from an orderly state holds in a run. -/
theorem Orderly.run_invariant {ok : Service → Label → Prop} {I : Service → Prop}
    (hstep : ∀ {s s' l}, s.Orderly cfg → I s → ok s l → s.step cfg l = some s' → I s')
    (h : s.Orderly cfg) (hI : I s) (hruns : Runs cfg ok s s') : s'.Orderly cfg ∧ I s' := by
  induction hruns with
  | refl => exact ⟨h, hI⟩
  | tail _ hnext ih =>
      obtain ⟨l, hok, hl⟩ := hnext
      exact ⟨ih.1.step hl, hstep ih.1 ih.2 hok hl⟩

end Service

end HiringService
