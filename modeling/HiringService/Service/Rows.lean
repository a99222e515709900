import HiringService.Service.Registry

/-!
# INSERTs row by row

In `Service.step` an INSERT of several rows goes through in one piece, and one that has to wait has
inserted nothing. PostgreSQL inserts the rows one after the other, and an INSERT that has to wait
keeps the rows before. `RowService` is the service with this detail: while an INSERT is the next call
of a process, it may insert one more row, and whoever needs the key of that row then has to wait.

The rows of an INSERT in progress make others wait and nothing else. So every run is one of the
service (`RowService.serviceRuns`), and every run of the service is one in which the INSERTs go
through in one piece (`RowService.runs_of_service`): what holds in all runs of the service does not
depend on this detail, as long as it is not about waiting.
-/

namespace HiringService

open Effect (Program)

/-! ## Rows -/

/-- The rows of an INSERT. -/
def Write.rows : Write → List Write
  | .insertBatch batch => [.insertBatch batch]
  | .updateBatch .. => []
  | .insertReference t rows => rows.map fun r => .insertReference t [r]
  | .insertEmployees rows => rows.map fun r => .insertEmployees [r]

/-- The rows that the statement inserts. Only their keys matter to others, so the time is left out. -/
def Statement.rows (st : Statement) : List Write := (st.write 0).rows

/-- The statement has to wait. -/
def Plan.isWait : Plan → Bool
  | .wait => true
  | _ => false

/-- The keys of a statement do not depend on the time. -/
theorem keys_write (st : Statement) (now : ℕ) : (st.write now).keys = (st.write 0).keys := by
  cases st <;> rfl

/-- Neither does whether its values can be stored. -/
theorem storable_write (st : Statement) (now : ℕ) :
    (st.write now).storable ↔ (st.write 0).storable := by
  cases st <;> exact Iff.rfl

/-- Each row has one key. -/
theorem keys_rows (wr : Write) : wr.rows.map Write.keys = wr.keys.map fun key => [key] := by
  cases wr with
  | insertBatch batch => rfl
  | updateBatch => rfl
  | insertReference t rows => simp [Write.rows, Write.keys, Function.comp_def]
  | insertEmployees rows => simp [Write.rows, Write.keys, Function.comp_def]

theorem keys_getElem? (wr : Write) (i : ℕ) :
    (wr.rows[i]?).map Write.keys = (wr.keys[i]?).map fun key => [key] := by
  rw [← List.getElem?_map, keys_rows, List.getElem?_map]

/-- The keys of the first rows are the first keys. -/
theorem flatMap_keys_take (wr : Write) (n : ℕ) :
    (wr.rows.take n).flatMap Write.keys = wr.keys.take n := by
  rw [List.flatMap, List.map_take, keys_rows, ← List.map_take, ← List.flatMap_def]
  exact List.flatMap_singleton' _

/-- The rows of an INSERT lock no batch. -/
theorem locks_of_mem_rows {wr row : Write} (h : row ∈ wr.rows) (b : BatchId) : row.locks b = false := by
  cases wr with
  | insertBatch batch =>
      cases List.mem_singleton.mp h
      rfl
  | updateBatch => cases h
  | insertReference t rows =>
      obtain ⟨r, -, rfl⟩ := List.mem_map.mp h
      rfl
  | insertEmployees rows =>
      obtain ⟨r, -, rfl⟩ := List.mem_map.mp h
      rfl

/-! ## Plans -/

/-- An INSERT waits for nothing but the keys of its rows. -/
theorem isWait_planInsert {view : Db} {held : List Write} {sql : String} {wr : Write} :
    (planInsert view held sql wr).isWait = true ↔ wr.isEmpty = false ∧ wr.storable ∧
      claimKeys view.keys (held.flatMap Write.keys) wr.keys = .wait := by
  by_cases hempty : wr.isEmpty = true
  · simp [planInsert, hempty, Plan.isWait]
  by_cases hstorable : wr.storable
  · rcases hclaim : claimKeys view.keys (held.flatMap Write.keys) wr.keys with _ | key | _
    · rcases hfk : wr.foreignKeys.find? fun fk => fk.target ∉ view.keys with _ | fk
      · simp only [planInsert, hempty, hstorable, hclaim, hfk]
        simp [Plan.isWait]
      · simp only [planInsert, hempty, hstorable, hclaim, hfk]
        simp [Plan.isWait]
    · simp [planInsert, hempty, hstorable, hclaim, Plan.isWait]
    · simp [planInsert, hempty, hstorable, hclaim, Plan.isWait]
  · simp [planInsert, hempty, hstorable, Plan.isWait]

/-- An update waits for nothing but the row. -/
theorem isWait_updateStatus {view : Db} {held : List Write} {now : ℕ} {sql : String} {b : BatchId}
    {status : IngestionBatchStatus} {errors : List String} :
    ((Statement.updateStatus b status errors).plan view held now sql).isWait = true ↔
      ((Statement.updateStatus b status errors).write now).storable ∧
        held.any (Write.locks b) = true := by
  unfold Statement.plan
  dsimp only
  split_ifs <;> simp_all [Plan.isWait]

/-- Whether a statement waits does not depend on its text. -/
theorem isWait_plan (st : Statement) (view : Db) (held : List Write) (now : ℕ) (sql sql' : String) :
    (st.plan view held now sql).isWait = (st.plan view held now sql').isWait := by
  cases st with
  | updateStatus => exact Bool.eq_iff_iff.mpr (isWait_updateStatus.trans isWait_updateStatus.symm)
  | _ => exact Bool.eq_iff_iff.mpr (isWait_planInsert.trans isWait_planInsert.symm)

/-- An INSERT that goes through among the transactions, and does not wait for what else is held,
needs none of its keys. -/
theorem notMem_of_planInsert {view : Db} {held held' : List Write} {sql sql' : String}
    {wr wr' : Write} (h : planInsert view held sql wr = .write wr')
    (hfree : (planInsert view held' sql' wr).isWait = false) :
    ∀ key ∈ wr.keys, key ∉ held'.flatMap Write.keys := by
  have hspec := planInsert_spec view held sql wr
  rw [h] at hspec
  obtain ⟨-, hempty, hadmits, hkeys⟩ := hspec
  have hgranted : claimKeys view.keys (held.flatMap Write.keys) wr.keys = .granted :=
    claimKeys_eq_granted_iff.mpr ⟨hadmits.keys_nodup, fun k hk => ⟨hadmits.keys_new k hk, hkeys k hk⟩⟩
  rcases claimKeys_of_granted (held'.flatMap Write.keys) hgranted with hgranted' | hwait
  · exact fun key hkey => ((claimKeys_eq_granted_iff.mp hgranted').2 key hkey).2
  · rw [isWait_planInsert.mpr ⟨hempty, hadmits.storable, hwait⟩] at hfree
    cases hfree

/-- The same for every statement. -/
theorem notMem_of_plan {st : Statement} {view : Db} {held held' : List Write} {now : ℕ}
    {sql sql' : String} {wr : Write} (h : st.plan view held now sql = .write wr)
    (hfree : (st.plan view held' now sql').isWait = false) :
    ∀ key ∈ (st.write now).keys, key ∉ held'.flatMap Write.keys := by
  cases st with
  | updateStatus => exact nofun
  | _ => exact notMem_of_planInsert h hfree

/-- A statement only records its write when nothing stands in its way and the session is in order. -/
theorem plan_of_recorded {pid : Pid} {c : Choice} {w w' : World} {st : Statement}
    {r : Except Exn Unit} (h : exec pid c w (.statement st) = some (r, w'))
    (hown : w'.server.own pid ≠ w.server.own pid) :
    (w.server.sessions pid).failed = false ∧ (∀ f, c.fault = some f → f.effective = true) ∧
      ∃ wr, st.plan (w.view pid) (w.server.others pid) w.clock c.sql = .write wr := by
  rcases hfault : c.fault with _ | f
  · -- without a fault: of the four plans only one records a write
    have hattempt : attempt w pid c (.statement st) = some (r, w') := by rwa [exec, hfault] at h
    by_cases hfailed : (w.server.sessions pid).failed = true
    · rw [attempt, if_pos hfailed] at hattempt
      cases hattempt
      exact absurd rfl hown
    rw [attempt, if_neg hfailed] at hattempt
    refine ⟨eq_false_of_ne_true hfailed, fun f hf => (by cases hf), ?_⟩
    rcases hplan : st.plan (w.view pid) (w.server.others pid) w.clock c.sql with wr | _ | e | _
    · exact ⟨wr, rfl⟩
    · rw [hplan] at hattempt
      cases hattempt
      exact absurd rfl hown
    · rw [hplan] at hattempt
      cases hattempt
      exact absurd (by simp) hown
    · rw [hplan] at hattempt
      cases hattempt
  · -- with a fault: the write is recorded if the fault is effective
    obtain ⟨-, rfl⟩ := exec_of_fault hfault h
    rw [failIf_own, disturbed] at hown
    rcases hplan : st.plan (w.view pid) (w.server.others pid) w.clock c.sql with wr | _ | e | _
    · rw [hplan] at hown
      dsimp only at hown
      split_ifs at hown with heffective
      · refine ⟨eq_false_of_ne_true heffective.2, ?_, wr, rfl⟩
        rintro _ ⟨⟩
        exact heffective.1
      · exact absurd rfl hown
    all_goals
      rw [hplan] at hown
      exact absurd rfl hown

/-- The statement that is the next call of `pid`. -/
def Service.statement (s : Service) (pid : Pid) : Option Statement :=
  match s.procs pid with
  | some ⟨_, .running (.call (.statement st) _)⟩ => some st
  | _ => none

/-! ## The machine -/

/-- The service, with the rows that the INSERTs in progress have inserted. -/
structure RowService where
  service : Service
  inserted : List (Pid × Write)

/-- What happens in a step: a step of the service, or an INSERT inserts one more row. -/
inductive RowLabel
  | serve (l : Label)
  | insert (pid : Pid)

namespace RowService

/-- The rows that the INSERT of `pid` has inserted so far. -/
def rows (s : RowService) (pid : Pid) : List Write :=
  (s.inserted.filter fun x => x.1 = pid).map Prod.snd

/-- What the others hold: the writes of open transactions and the rows of INSERTs in progress. -/
def held (s : RowService) (pid : Pid) : List Write :=
  s.service.world.server.others pid ++ (s.inserted.filter fun x => x.1 ≠ pid).map Prod.snd

/-- The statement of `pid` can insert `row` now. -/
def Accepts (s : RowService) (pid : Pid) (st : Statement) (row : Write) : Prop :=
  (s.service.world.server.sessions pid).failed = false ∧ (st.write 0).storable ∧
    claimKeys ((s.service.world.view pid).keys ++ (s.rows pid).flatMap Write.keys)
      ((s.held pid).flatMap Write.keys) row.keys = .granted

instance (s : RowService) (pid : Pid) (st : Statement) (row : Write) :
    Decidable (s.Accepts pid st row) := by
  unfold Accepts
  infer_instance

/-- The statement of `pid` waits for a row of an INSERT in progress, and not for a transaction. -/
def hindered (s : RowService) (pid : Pid) : Bool :=
  let w := s.service.world
  match s.service.statement pid with
  | none => false
  | some st =>
      !(w.server.sessions pid).failed && (st.plan (w.view pid) (s.held pid) w.clock "").isWait &&
        !(st.plan (w.view pid) (w.server.others pid) w.clock "").isWait

/-- A statement that waits for a row of an INSERT can be interrupted, but it has no effect. -/
def admits (s : RowService) : Label → Bool
  | .call pid c => !s.hindered pid || c.fault.any fun f => !f.effective
  | _ => true

/-- One step; `none` when the label does not fit the state. The rows of an INSERT become writes of
its transaction when the call returns, and are gone when it raises. -/
def step (cfg : Settings) (s : RowService) : RowLabel → Option RowService
  | .serve l =>
      if s.admits l then
        (s.service.step cfg l).map fun service =>
          ⟨service, s.inserted.filter fun x => x.1 ∉ l.pids⟩
      else none
  | .insert pid =>
      match s.service.statement pid with
      | none => none
      | some st =>
          match st.rows[(s.rows pid).length]? with
          | none => none
          | some row =>
              if s.Accepts pid st row then some { s with inserted := s.inserted ++ [(pid, row)] }
              else none

/-- The service before any request. -/
def initial (db : Db) (storage : ObjectKey → Option Bytes) : RowService :=
  ⟨Service.initial db storage, []⟩

/-- A step that meets the condition `ok`. -/
def Next (cfg : Settings) (ok : Service → Label → Prop) (s s' : RowService) : Prop :=
  ∃ l, (∀ l', l = .serve l' → ok s.service l') ∧ s.step cfg l = some s'

/-- A run whose steps all meet the condition `ok`. -/
abbrev Runs (cfg : Settings) (ok : Service → Label → Prop) : RowService → RowService → Prop :=
  Relation.ReflTransGen (Next cfg ok)

/-- Take the steps of a list of labels. -/
def follow (cfg : Settings) : RowService → List RowLabel → Option RowService
  | s, [] => some s
  | s, l :: ls => (s.step cfg l).bind fun s' => s'.follow cfg ls

/-- What `pid` holds: the writes of its transaction and the rows of its INSERT in progress. -/
def holds (s : RowService) (pid : Pid) : List Write :=
  s.service.world.server.writes pid ++ s.rows pid

variable {cfg : Settings} {ok : Service → Label → Prop} {s s' : RowService} {l : Label}
  {pid p q : Pid}

/-- A list of labels that can be followed is a run. -/
theorem runs_of_follow {ls : List RowLabel} (h : s.follow cfg ls = some s') :
    Runs cfg (fun _ _ => True) s s' := by
  induction ls generalizing s with
  | nil =>
      cases h
      exact .refl
  | cons l ls ih =>
      obtain ⟨s₁, hstep, hrest⟩ := Option.bind_eq_some_iff.mp h
      exact .head ⟨l, fun _ _ => trivial, hstep⟩ (ih hrest)

/-! ## Runs of the service -/

/-- A step of the service. -/
theorem serve_inv (h : s.step cfg (.serve l) = some s') : s.admits l = true ∧
    s.service.step cfg l = some s'.service ∧
      s'.inserted = s.inserted.filter fun x => x.1 ∉ l.pids := by
  simp only [step] at h
  split at h
  · rename_i hadmits
    obtain ⟨service, hservice, rfl⟩ := Option.map_eq_some_iff.mp h
    exact ⟨hadmits, hservice, rfl⟩
  · cases h

/-- A row that is inserted is the next one of the statement. -/
theorem insert_inv (h : s.step cfg (.insert pid) = some s') : ∃ st row,
    s.service.statement pid = some st ∧ st.rows[(s.rows pid).length]? = some row ∧
      s.Accepts pid st row ∧ s' = { s with inserted := s.inserted ++ [(pid, row)] } := by
  simp only [step] at h
  split at h
  · cases h
  · rename_i st hst
    split at h
    · cases h
    · rename_i row hrow
      split at h
      · rename_i haccepts
        exact ⟨st, row, hst, hrow, haccepts, (Option.some.inj h).symm⟩
      · cases h

/-- Row by row, a run is a run of the service. -/
theorem serviceRuns (h : Runs cfg ok s s') : Service.Runs cfg ok s.service s'.service := by
  induction h with
  | refl => exact .refl
  | tail _ hnext ih =>
      obtain ⟨l | pid, hok, hstep⟩ := hnext
      · exact ih.tail ⟨l, hok l rfl, (serve_inv hstep).2.1⟩
      · obtain ⟨st, row, -, -, -, rfl⟩ := insert_inv hstep
        exact ih

/-- Nobody is hindered when no INSERT is in progress. -/
theorem admits_of_nil (service : Service) (l : Label) :
    (⟨service, []⟩ : RowService).admits l = true := by
  have hheld : ∀ pid, (⟨service, []⟩ : RowService).held pid = service.world.server.others pid :=
    fun _ => List.append_nil _
  cases l with
  | call pid c =>
      have hfree : (⟨service, []⟩ : RowService).hindered pid = false := by
        rw [hindered]
        dsimp only
        split
        · rfl
        · rw [hheld, Bool.and_assoc, Bool.and_not_self, Bool.and_false]
      rw [admits, hfree]
      rfl
  | _ => rfl

/-- A run of the service is one in which the INSERTs go through in one piece. -/
theorem runs_of_service {t t' : Service} (h : Service.Runs cfg ok t t') :
    Runs cfg ok ⟨t, []⟩ ⟨t', []⟩ := by
  induction h with
  | refl => exact .refl
  | @tail t₁ t₂ _ hnext ih =>
      obtain ⟨l, hok, hstep⟩ := hnext
      refine ih.tail ⟨.serve l, fun l' hl' => by cases hl'; exact hok, ?_⟩
      rw [step, if_pos (admits_of_nil t₁ l), hstep]
      rfl

/-! ## Rows in progress -/

/-- What the others hold is what each of them holds. -/
theorem mem_held {wr : Write} : wr ∈ s.held p ↔ ∃ q ≠ p, wr ∈ s.holds q := by
  simp only [held, holds, rows, Txn.Server.others, Txn.Server.writes, Txn.Server.own,
    List.mem_append, List.mem_map, List.mem_filter, decide_eq_true_eq]
  constructor
  · rintro (⟨e, ⟨he, howner⟩, rfl⟩ | ⟨x, ⟨hx, howner⟩, rfl⟩)
    · exact ⟨e.owner, howner, Or.inl ⟨e, ⟨he, rfl⟩, rfl⟩⟩
    · exact ⟨x.1, howner, Or.inr ⟨x, ⟨hx, rfl⟩, rfl⟩⟩
  · rintro ⟨q, hq, ⟨e, ⟨he, rfl⟩, rfl⟩ | ⟨x, ⟨hx, rfl⟩, rfl⟩⟩
    · exact Or.inl ⟨e, ⟨he, hq⟩, rfl⟩
    · exact Or.inr ⟨x, ⟨hx, hq⟩, rfl⟩

/-- The rows of the others after a step of the service. -/
theorem rows_of_filter (h : s'.inserted = s.inserted.filter fun x => x.1 ∉ l.pids) (p : Pid) :
    s'.rows p = if p ∈ l.pids then [] else s.rows p := by
  rw [rows, h, List.filter_filter]
  split_ifs with hp
  · rw [List.map_eq_nil_iff, List.filter_eq_nil_iff]
    rintro x - hx
    simp only [Bool.and_eq_true, decide_eq_true_eq] at hx
    exact hx.2 (hx.1 ▸ hp)
  · refine congrArg (List.map Prod.snd) (List.filter_congr fun x _ => ?_)
    by_cases hx : x.1 = p
    · simp [hx, hp]
    · simp [hx]

theorem rows_insert_self (s : RowService) (p : Pid) (row : Write) :
    ({ s with inserted := s.inserted ++ [(p, row)] } : RowService).rows p = s.rows p ++ [row] := by
  simp [rows]

theorem rows_insert_of_ne (s : RowService) (h : q ≠ p) (row : Write) :
    ({ s with inserted := s.inserted ++ [(p, row)] } : RowService).rows q = s.rows q := by
  simp [rows, h.symm]

/-- What is known of the rows of INSERTs in progress: they are the first ones of the statement that
is the next call of the process, and nobody else holds their keys. -/
structure Fitting (s : RowService) : Prop where
  ongoing : ∀ {p}, s.rows p ≠ [] → ∃ st, s.service.statement p = some st ∧ s.rows p <+: st.rows
  apart : ∀ {p q}, p ≠ q → ∀ row ∈ s.rows p, ∀ key ∈ row.keys, ∀ wr ∈ s.holds q, key ∉ wr.keys

/-- At first no INSERT is in progress. -/
theorem fitting_initial (db : Db) (storage : ObjectKey → Option Bytes) :
    (initial db storage).Fitting where
  ongoing h := absurd rfl h
  apart _ := nofun

/-- The rows that have been inserted are the first ones of the statement. -/
theorem Fitting.isPrefix (h : s.Fitting) {st : Statement} (hst : s.service.statement p = some st) :
    s.rows p <+: st.rows := by
  by_cases hnil : s.rows p = []
  · rw [hnil]
    exact List.nil_prefix
  · obtain ⟨st', hst', hbegins⟩ := h.ongoing hnil
    cases hst.symm.trans hst'
    exact hbegins

/-- The row that an INSERT inserts. -/
theorem Fitting.insert (h : s.Fitting) (hstep : s.step cfg (.insert pid) = some s') : s'.Fitting := by
  obtain ⟨st, row, hst, hrow, ⟨-, -, hgranted⟩, rfl⟩ := insert_inv hstep
  -- the key of the new row was free
  have hfree : ∀ key ∈ row.keys, ∀ q ≠ pid, ∀ wr ∈ s.holds q, key ∉ wr.keys := by
    intro key hkey q hq wr hwr hheld
    exact ((claimKeys_eq_granted_iff.mp hgranted).2 key hkey).2
      (List.mem_flatMap.mpr ⟨wr, mem_held.mpr ⟨q, hq, hwr⟩, hheld⟩)
  refine ⟨fun {p} hp => ?_, fun {p q} hne row' hrow' key hkey wr hwr => ?_⟩
  · rcases eq_or_ne p pid with rfl | hne
    · refine ⟨st, hst, ?_⟩
      obtain ⟨rest, hrest⟩ := h.isPrefix hst
      rw [rows_insert_self]
      rw [← hrest, List.getElem?_append_right (Nat.le_refl _), Nat.sub_self] at hrow
      obtain ⟨rest', rfl⟩ : ∃ rest', rest = row :: rest' := by
        cases rest with
        | nil => cases hrow
        | cons row' rest' =>
            cases hrow
            exact ⟨rest', rfl⟩
      exact ⟨rest', by rw [← hrest, List.append_assoc, List.singleton_append]⟩
    · rw [rows_insert_of_ne s hne] at hp ⊢
      exact h.ongoing hp
  · -- two rows of which one may be the new one
    have hholds : wr ∈ s.holds q ∨ (q = pid ∧ wr = row) := by
      rcases List.mem_append.mp hwr with hwrite | hin
      · exact Or.inl (List.mem_append_left _ hwrite)
      · rcases eq_or_ne q pid with rfl | hq
        · rw [rows_insert_self, List.mem_append, List.mem_singleton] at hin
          exact hin.imp (List.mem_append_right _) fun hwr => ⟨rfl, hwr⟩
        · rw [rows_insert_of_ne s hq] at hin
          exact Or.inl (List.mem_append_right _ hin)
    have hown : row' ∈ s.rows p ∨ (p = pid ∧ row' = row) := by
      rcases eq_or_ne p pid with rfl | hp
      · rw [rows_insert_self, List.mem_append, List.mem_singleton] at hrow'
        exact hrow'.imp id fun hrow' => ⟨rfl, hrow'⟩
      · rw [rows_insert_of_ne s hp] at hrow'
        exact Or.inl hrow'
    rcases hown with hown | ⟨rfl, rfl⟩
    · rcases hholds with hwr | ⟨rfl, rfl⟩
      · exact h.apart hne row' hown key hkey wr hwr
      · exact fun hkey' => hfree key hkey' p hne row' (List.mem_append_right _ hown) hkey
    · rcases hholds with hwr | ⟨rfl, rfl⟩
      · exact hfree key hkey q (Ne.symm hne) wr hwr
      · exact absurd rfl hne

/-- A call that has an effect is not hindered. -/
theorem not_hindered_of_effective {c : Choice} (h : s.admits (.call q c) = true)
    (heffective : ∀ f, c.fault = some f → f.effective = true) : s.hindered q = false := by
  rw [admits, Bool.or_eq_true] at h
  rcases h with hfree | hfault
  · simpa using hfree
  · rcases hf : c.fault with _ | f
    · rw [hf] at hfault
      cases hfault
    · rw [hf, Option.any_some, heffective f hf] at hfault
      cases hfault

/-- A statement that is not hindered and does not wait for a transaction does not wait. -/
theorem isWait_of_not_hindered {st : Statement} (hst : s.service.statement pid = some st)
    (hfailed : (s.service.world.server.sessions pid).failed = false) (h : s.hindered pid = false)
    {sql : String} (hplan : (st.plan (s.service.world.view pid) (s.service.world.server.others pid)
      s.service.world.clock sql).isWait = false) :
    (st.plan (s.service.world.view pid) (s.held pid) s.service.world.clock sql).isWait = false := by
  rw [hindered, hst] at h
  rw [isWait_plan _ _ _ _ sql ""] at hplan ⊢
  simpa [hfailed, hplan] using h

/-- What a step of the service makes somebody hold. -/
theorem holds_serve (hstep : s.step cfg (.serve l) = some s') {wr : Write} (hwr : wr ∈ s'.holds q) :
    wr ∈ s.holds q ∨ ∃ c, l = .call q c ∧ ∀ key ∈ wr.keys, key ∉ (s.held q).flatMap Write.keys := by
  obtain ⟨hadmits, hservice, hinserted⟩ := serve_inv hstep
  rcases List.mem_append.mp hwr with hwrite | hrow
  · obtain ⟨e, he, rfl⟩ := List.mem_map.mp hwrite
    have hsame : s'.service.world.server.own q = s.service.world.server.own q →
        e.write ∈ s.holds q := fun hown =>
      List.mem_append_left _ (List.mem_map_of_mem (hown ▸ he))
    rcases (Service.move_of_step hservice).turn q with ⟨-, hne, hshift⟩ | ⟨-, -, hne, hshift, -⟩ |
      ⟨hlabel, hproc, hexec, -⟩ | ⟨-, -, -, hworld⟩
    · exact Or.inl (hsame (hshift.own hne))
    · exact Or.inl (hsame (hshift.own hne))
    · rename_i c request op k r
      by_cases hown : s'.service.world.server.own q = s.service.world.server.own q
      · exact Or.inl (hsame hown)
      rcases (exec_called hexec).mem_own e he with he | ⟨st, rfl, hwrite⟩
      · exact Or.inl (List.mem_append_left _ (List.mem_map_of_mem he))
      -- a statement has recorded its write, so no row of another INSERT was in its way
      obtain ⟨hfailed, heffective, wr, hplan⟩ := plan_of_recorded hexec hown
      have hstatement : s.service.statement q = some st := by rw [Service.statement, hproc]
      have hfree := isWait_of_not_hindered hstatement hfailed
        (not_hindered_of_effective (hlabel ▸ hadmits) heffective) (by rw [hplan]; rfl)
      refine Or.inr ⟨c, hlabel, ?_⟩
      rw [hwrite]
      exact notMem_of_plan hplan hfree
    · have hnil : s'.service.world.server.own q = [] := by
        rw [hworld]
        exact s.service.world.server.rollback_own_self q
      rw [hnil] at he
      cases he
  · rw [rows_of_filter hinserted] at hrow
    split_ifs at hrow
    · cases hrow
    · exact Or.inl (List.mem_append_right _ hrow)

/-- A step of the service takes rows away, or makes a call that none of them hinders. -/
theorem Fitting.serve (h : s.Fitting) (hstep : s.step cfg (.serve l) = some s') : s'.Fitting := by
  have hservice := (serve_inv hstep).2.1
  have hrows := rows_of_filter (serve_inv hstep).2.2
  -- rows of processes that take part in the step are gone
  have hkept : ∀ {p}, s'.rows p ≠ [] → p ∉ l.pids ∧ s'.rows p = s.rows p := by
    intro p hp
    rw [hrows] at hp ⊢
    split_ifs at hp ⊢ with hmem
    · exact absurd rfl hp
    · exact ⟨hmem, rfl⟩
  refine ⟨fun {p} hp => ?_, fun {p q} hne row hrow key hkey wr hwr => ?_⟩
  · obtain ⟨hmem, hsame⟩ := hkept hp
    obtain ⟨st, hst, hbegins⟩ := h.ongoing (hsame ▸ hp)
    refine ⟨st, ?_, hsame ▸ hbegins⟩
    rw [Service.statement, (Service.move_of_step hservice).procs_of_notMem hmem]
    exact hst
  · obtain ⟨-, hsame⟩ := hkept (List.ne_nil_of_mem hrow)
    rw [hsame] at hrow
    -- what is held now was held before, or has just been recorded and was free
    rcases holds_serve hstep hwr with hwr | ⟨c, -, hfree⟩
    · exact h.apart hne row hrow key hkey wr hwr
    · intro hkey'
      exact hfree key hkey' (List.mem_flatMap.mpr
        ⟨row, mem_held.mpr ⟨p, hne, List.mem_append_right _ hrow⟩, hkey⟩)

/-- By induction on the run. -/
theorem fitting_of_runs {db : Db} {storage : ObjectKey → Option Bytes}
    (hruns : Runs cfg ok (initial db storage) s) : s.Fitting := by
  induction hruns with
  | refl => exact fitting_initial db storage
  | tail _ hnext ih =>
      obtain ⟨l | pid, -, hstep⟩ := hnext
      · exact ih.serve hstep
      · exact ih.insert hstep

end RowService

end HiringService
