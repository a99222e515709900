import HiringService.Service

/-!
# What a step of the service does

Inversion of `Service.step`, once for the whole step (`Move`), for the world (`Shift`) and from the
point of view of one process (`Turn`). Invariants of runs are proved from these and never unfold the
step function.
-/

namespace HiringService

open Effect (Program)

namespace Service

variable {cfg : Settings} {s s' : Service} {l : Label}

/-! ## The whole step -/

/-- A step of each kind, with what it required. -/
inductive Move (cfg : Settings) (s : Service) : Label → Service → Prop
  | arrive {pid request} (hroute : request.isRoute = true) (hnew : s.procs pid = none)
      (hfresh : ∀ u ∈ request.fresh, u ∉ s.issued) :
      Move cfg s (.arrive pid request)
        { s.start cfg pid request with issued := request.fresh ++ s.issued }
  | call {pid c request op k r w} (hproc : s.procs pid = some ⟨request, .running (.call op k)⟩)
      (hexec : exec pid c s.world op = some (r, w)) :
      Move cfg s (.call pid c) (s.set pid ⟨request, .running (k r)⟩ w)
  | finish {pid task request response}
      (hproc : s.procs pid = some ⟨request, .running (.pure response)⟩) :
      Move cfg s (.finish pid task) (s.set pid ⟨request, .returned response⟩ (s.world.close pid))
  | schedule {pid task request response next}
      (hproc : s.procs pid = some ⟨request, .running (.pure response)⟩)
      (htask : request.task response = some next) (hne : task ≠ pid)
      (hnew : s.procs task = none) :
      Move cfg s (.finish pid task)
        ((s.set pid ⟨request, .returned response⟩ (s.world.close pid)).start cfg task next)
  | raise {pid task request e} (hproc : s.procs pid = some ⟨request, .running (.throw e)⟩) :
      Move cfg s (.finish pid task) (s.set pid ⟨request, .raised e⟩ (s.world.close pid))
  | cut {pid request rest} (hproc : s.procs pid = some ⟨request, .running rest⟩) :
      Move cfg s (.cut pid) (s.set pid ⟨request, .cut⟩ (s.world.close pid))
  | tick (n : ℕ) :
      Move cfg s (.tick n) { s with world := { s.world with clock := s.world.clock + n } }
  | expire (key : String) :
      Move cfg s (.expire key)
        { s with world := { s.world with cache := Function.update s.world.cache key none } }

theorem set_procs_of_ne {pid q : Pid} (hq : q ≠ pid) (proc : Process) (w : World) :
    (s.set pid proc w).procs q = s.procs q :=
  Function.update_of_ne hq _ _

theorem set_procs_self (pid : Pid) (proc : Process) (w : World) :
    (s.set pid proc w).procs pid = some proc :=
  Function.update_self _ _ _

/-- What the end of a process can do. -/
theorem move_of_finish {pid task : Pid} (h : s.step cfg (.finish pid task) = some s') :
    Move cfg s (.finish pid task) s' := by
  simp only [step] at h
  split at h
  · rename_i request response hproc
    rcases hnext : request.task response with _ | next
    · rw [hnext] at h
      cases h
      exact .finish hproc
    · simp only [hnext] at h
      by_cases hnew : ((s.set pid ⟨request, .returned response⟩
          (s.world.close pid)).procs task).isNone
      · rw [if_pos hnew] at h
        cases h
        have hne : task ≠ pid := by
          rintro rfl
          rw [set_procs_self] at hnew
          cases hnew
        rw [set_procs_of_ne hne] at hnew
        exact .schedule hproc hnext hne (Option.isNone_iff_eq_none.mp hnew)
      · rw [if_neg hnew] at h
        cases h
  · rename_i request e hproc
    cases h
    exact .raise hproc
  · cases h

/-- What a step can do, by cases on its label. -/
theorem move_of_step (h : s.step cfg l = some s') : Move cfg s l s' := by
  cases l with
  | arrive pid request =>
      simp only [step] at h
      split at h
      · rename_i hnew
        cases h
        exact .arrive hnew.1 (Option.isNone_iff_eq_none.mp hnew.2.1) hnew.2.2
      · cases h
  | call pid c =>
      simp only [step] at h
      split at h
      · rename_i request op k hproc
        rcases hexec : exec pid c s.world op with _ | ⟨r, w⟩
        · rw [hexec] at h
          cases h
        · rw [hexec] at h
          cases h
          exact .call hproc hexec
      · cases h
  | finish pid task => exact move_of_finish h
  | cut pid =>
      simp only [step] at h
      split at h
      · rename_i request rest hproc
        cases h
        exact .cut hproc
      · cases h
  | tick n =>
      cases h
      exact .tick n
  | expire key =>
      cases h
      exact .expire key

/-- A process that the label does not name stays as it is. -/
theorem Move.procs_of_notMem (h : Move cfg s l s') {q : Pid} (hq : q ∉ l.pids) :
    s'.procs q = s.procs q := by
  have hne : ∀ {pid}, pid ∈ l.pids → q ≠ pid := by
    rintro pid hpid rfl
    exact hq hpid
  cases h with
  | arrive => exact set_procs_of_ne (hne List.mem_cons_self) _ s.world
  | call => exact set_procs_of_ne (hne List.mem_cons_self) _ _
  | finish => exact set_procs_of_ne (hne List.mem_cons_self) _ _
  | schedule =>
      exact (set_procs_of_ne (hne (List.mem_cons_of_mem _ List.mem_cons_self)) _ _).trans
        (set_procs_of_ne (hne List.mem_cons_self) _ _)
  | raise => exact set_procs_of_ne (hne List.mem_cons_self) _ _
  | cut => exact set_procs_of_ne (hne List.mem_cons_self) _ _
  | tick => rfl
  | expire => rfl

/-- Every process has a number below `n`. -/
def Below (n : ℕ) (s : Service) : Prop := ∀ q, n ≤ q → s.procs q = none

theorem Below.step {n : ℕ} (h : s.Below n) (hl : ∀ q ∈ l.pids, q < n)
    (hstep : s.step cfg l = some s') : s'.Below n := by
  intro q hq
  have hnot : q ∉ l.pids := fun hmem => absurd (hl q hmem) (Nat.not_lt.mpr hq)
  exact ((move_of_step hstep).procs_of_notMem hnot).trans (h q hq)

/-! ## The world -/

/-- How a step changes the world: by a call of an actor, by closing the session of an actor, or in
nothing that a session sees. -/
inductive Shift (s : Service) (l : Label) : Option Pid → World → Prop
  | call {pid c request op k r w} (hlabel : l = .call pid c)
      (hproc : s.procs pid = some ⟨request, .running (.call op k)⟩)
      (hexec : exec pid c s.world op = some (r, w)) : Shift s l (some pid) w
  | close {pid request rest} (hproc : s.procs pid = some ⟨request, .running rest⟩) :
      Shift s l (some pid) (s.world.close pid)
  | still {w} (hserver : w.server = s.world.server) (hslot : w.slot = s.world.slot)
      (hstorage : w.storage = s.world.storage) (hhistory : w.history = s.world.history) :
      Shift s l none w

/-- A step that leaves the world as it is. -/
theorem shift_refl : Shift s l none s.world := .still rfl rfl rfl rfl

/-- What a step does to the world. -/
theorem Move.shift (h : Move cfg s l s') : ∃ actor, Shift s l actor s'.world := by
  cases h with
  | arrive => exact ⟨none, shift_refl⟩
  | call hproc hexec => exact ⟨_, .call rfl hproc hexec⟩
  | finish hproc => exact ⟨_, .close hproc⟩
  | schedule hproc => exact ⟨_, .close hproc⟩
  | raise hproc => exact ⟨_, .close hproc⟩
  | cut hproc => exact ⟨_, .close hproc⟩
  | tick => exact ⟨none, .still rfl rfl rfl rfl⟩
  | expire => exact ⟨none, .still rfl rfl rfl rfl⟩

/-- A key of the cache stays, or it is dropped, or a process sets it. -/
theorem Move.cache (h : Move cfg s l s') (key : String) :
    s'.world.cache key = s.world.cache key ∨ s'.world.cache key = none ∨
      ∃ q request value ttl k,
        s.procs q = some ⟨request, .running (.call (.cacheSet key value ttl) k)⟩ ∧
          s'.world.cache key = some value := by
  cases h with
  | call hproc hexec =>
      rename_i pid c request op k r w
      rcases (exec_called hexec).cache key with hsame | ⟨keys, -, -, hnone⟩ | ⟨value, ttl, rfl, hset⟩
      · exact Or.inl hsame
      · exact Or.inr (Or.inl hnone)
      · exact Or.inr (Or.inr ⟨pid, request, value, ttl, k, hproc, hset⟩)
  | expire key' =>
      rcases eq_or_ne key key' with rfl | hne
      · exact Or.inr (Or.inl (Function.update_self _ _ _))
      · exact Or.inl (Function.update_of_ne hne _ _)
  | _ => exact Or.inl rfl

/-- What the step publishes: the writes of a process whose next call is a commit. -/
def Publishes (s : Service) (l : Label) (pid : Pid) (request : Request) : Prop :=
  ∃ c k, l = .call pid c ∧ s.procs pid = some ⟨request, .running (.call .commit k)⟩

section Shift

variable {actor : Option Pid} {q : Pid} {w : World}

/-- The database only changes by the commit of a process, which publishes its pending writes. -/
theorem Shift.db (h : Shift s l actor w) : w.db = s.world.db ∨
    ∃ pid request, actor = some pid ∧ s.Publishes l pid request ∧ Published pid s.world w := by
  cases h with
  | call hlabel hproc hexec =>
      rename_i pid c request op k r
      rcases (exec_called hexec).db with ⟨rfl, hpublished⟩ | hsame
      · exact Or.inr ⟨pid, request, rfl, ⟨c, k, hlabel, hproc⟩, hpublished⟩
      · exact Or.inl hsame
  | close => exact Or.inl rfl
  | still hserver => exact Or.inl (by rw [World.db, hserver])

/-- Nothing is taken back from the history. -/
theorem Shift.history_mem (h : Shift s l actor w) : ∀ e ∈ s.world.history, e ∈ w.history := by
  cases h with
  | call _ _ hexec => exact (exec_called hexec).history_mem
  | close => exact fun _ he => he
  | still _ _ _ hhistory => exact fun e he => by rwa [hhistory]

/-- A process that is not the actor keeps its pending writes. -/
theorem Shift.own (h : Shift s l actor w) (hq : actor ≠ some q) :
    w.server.own q = s.world.server.own q := by
  cases h with
  | call _ _ hexec => exact (exec_called hexec).own_other q fun hpid => hq (congrArg some hpid.symm)
  | close => exact s.world.server.rollback_own_of_ne fun hpid => hq (congrArg some hpid.symm)
  | still hserver => rw [hserver]

/-- For a process that is not the actor, a step is interference: what it publishes has to be
allowed, and no upload may replace a frozen object. -/
theorem Shift.foreign {allowed : Write → Prop} {frozen : ObjectKey → Prop}
    (h : Shift s l actor w) (hq : actor ≠ some q)
    (hwrites : ∀ {pid request}, pid ≠ q → s.Publishes l pid request →
      ∀ e ∈ s.world.server.own pid, allowed e.write)
    (hupload : ∀ {pid request key file k}, pid ≠ q →
      s.procs pid = some ⟨request, .running (.call (.uploadFile key file) k)⟩ → ¬ frozen key) :
    Foreign q allowed frozen s.world w := by
  cases h with
  | call hlabel hproc hexec =>
      rename_i pid c request op k r
      have hpid : pid ≠ q := fun heq => hq (congrArg some heq)
      refine (exec_called hexec).foreign hpid.symm ?_ ?_
      · rintro rfl
        exact hwrites hpid ⟨c, k, hlabel, hproc⟩
      · rintro key file rfl
        exact hupload hpid hproc
  | close => exact foreign_close fun hpid => hq (congrArg some hpid.symm)
  | still hserver hslot hstorage hhistory =>
      exact foreign_of_server_eq hserver hslot hstorage hhistory

end Shift

/-! ## One process -/

/-- How a process of the code ends. -/
inductive Ends : Prog Response → Status → Prop
  | returned (response : Response) : Ends (.pure response) (.returned response)
  | raised (e : Exn) : Ends (.throw e) (.raised e)
  | cut (rest : Prog Response) : Ends rest .cut

/-- How a process starts: a client makes a request, or an upload that has returned schedules its
task. -/
inductive Starts (s s' : Service) : Label → Pid → Request → Prop
  | arrive {q request} (hroute : request.isRoute = true)
      (hfresh : ∀ u ∈ request.fresh, u ∉ s.issued) (hissued : s'.issued = request.fresh ++ s.issued)
      (hworld : s'.world = s.world) : Starts s s' (.arrive q request) q request
  | schedule {q pid request response next} (htask : request.task response = some next)
      (hproc : s.procs pid = some ⟨request, .running (.pure response)⟩)
      (hproc' : s'.procs pid = some ⟨request, .returned response⟩)
      (hissued : s'.issued = s.issued) (hworld : s'.world = s.world.close pid) :
      Starts s s' (.finish pid q) q next

/-- What a step is to the process `q`. -/
inductive Turn (cfg : Settings) (s : Service) (l : Label) (s' : Service) (q : Pid) : Prop
  | beside {actor} (hproc : s'.procs q = s.procs q) (hne : actor ≠ some q)
      (hshift : Shift s l actor s'.world)
  | starts {request actor} (hnew : s.procs q = none)
      (hproc : s'.procs q = some ⟨request, .running (request.program cfg)⟩) (hne : actor ≠ some q)
      (hshift : Shift s l actor s'.world) (hstarts : Starts s s' l q request)
  | calls {c request op k r} (hlabel : l = .call q c)
      (hproc : s.procs q = some ⟨request, .running (.call op k)⟩)
      (hexec : exec q c s.world op = some (r, s'.world))
      (hproc' : s'.procs q = some ⟨request, .running (k r)⟩)
  | ends {request rest status} (hproc : s.procs q = some ⟨request, .running rest⟩)
      (hproc' : s'.procs q = some ⟨request, status⟩) (hends : Ends rest status)
      (hworld : s'.world = s.world.close q)

/-- The end of a process, for each process. -/
theorem turn_of_close {pid q : Pid} {request : Request} {rest : Prog Response} {status : Status}
    (hproc : s.procs pid = some ⟨request, .running rest⟩) (hends : Ends rest status) :
    Turn cfg s l (s.set pid ⟨request, status⟩ (s.world.close pid)) q := by
  by_cases hq : q = pid
  · subst hq
    exact .ends hproc (set_procs_self _ _ _) hends rfl
  · exact .beside (set_procs_of_ne hq _ _) (fun h => hq (Option.some.inj h).symm) (.close hproc)

/-- What a step is for the process `q`. -/
theorem Move.turn (h : Move cfg s l s') (q : Pid) : Turn cfg s l s' q := by
  cases h with
  | arrive hroute hnew hfresh =>
      rename_i pid request
      by_cases hq : q = pid
      · subst hq
        exact .starts hnew (set_procs_self q _ s.world) (Option.some_ne_none q).symm shift_refl
          (.arrive hroute hfresh rfl rfl)
      · exact .beside (set_procs_of_ne hq _ s.world) (Option.some_ne_none q).symm shift_refl
  | call hproc hexec =>
      rename_i pid c request op k r w
      by_cases hq : q = pid
      · subst hq
        exact .calls rfl hproc hexec (set_procs_self _ _ _)
      · exact .beside (set_procs_of_ne hq _ _) (fun h => hq (Option.some.inj h).symm)
          (.call rfl hproc hexec)
  | finish hproc => exact turn_of_close hproc (.returned _)
  | raise hproc => exact turn_of_close hproc (.raised _)
  | cut hproc => exact turn_of_close hproc (.cut _)
  | schedule hproc htask hne hnew =>
      rename_i pid task request response next
      -- two processes take part: one ends and its task starts
      by_cases htaskq : q = task
      · subst htaskq
        refine .starts hnew (set_procs_self _ _ _) (fun h => hne (Option.some.inj h).symm)
          (.close hproc) (.schedule htask hproc ?_ rfl rfl)
        exact (set_procs_of_ne hne.symm _ _).trans (set_procs_self _ _ _)
      have hsame := set_procs_of_ne (s := s.set pid ⟨request, .returned response⟩
        (s.world.close pid)) htaskq ⟨next, .running (next.program cfg)⟩ (s.world.close pid)
      by_cases hq : q = pid
      · subst hq
        exact .ends hproc (hsame.trans (set_procs_self _ _ _)) (.returned _) rfl
      · exact .beside (hsame.trans (set_procs_of_ne hq _ _))
          (fun h => hq (Option.some.inj h).symm) (.close hproc)
  | tick => exact .beside rfl (Option.some_ne_none q).symm (.still rfl rfl rfl rfl)
  | expire => exact .beside rfl (Option.some_ne_none q).symm (.still rfl rfl rfl rfl)

end Service

end HiringService
