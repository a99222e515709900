import HiringService.Contracts.Locks
import HiringService.Sequential.Worker
import HiringService.Service.Rows
import HiringService.Txn.Waits

/-!
# Where the service can deadlock

A statement waits for the transaction or the INSERT that holds what it needs next. Uploads, polls and
metrics requests never hold anything while they wait, so whoever they wait for goes on. An INSERT of
several rows does, and so does a row-by-row fallback: two of them on one table can wait for each
other. These are the only deadlocks (`only_inserts_deadlock`).
-/

namespace HiringService

open Effect (Program)
open Relation (ReflTransGen TransGen)

/-! ## What a statement waits for -/

/-- When the statement has inserted `n` rows, it needs next what the write of another process holds:
the key of a row, or the row of the batch that it updates. -/
def Statement.Needs (st : Statement) (n : ℕ) (wr : Write) : Prop :=
  (∃ row, st.rows[n]? = some row ∧ ∃ key ∈ row.keys, key ∈ wr.keys) ∨
    ∃ b status errors, st = .updateStatus b status errors ∧ wr.locks b = true

/-- Only a statement has to wait for a transaction. -/
theorem wait_of_blocked {pid : Pid} {w : World} {op : Op} (h : exec pid .calm w op = none) :
    ∃ st, op = .statement st ∧ (w.server.sessions pid).failed = false ∧
      (st.plan (w.view pid) (w.server.others pid) w.clock "").isWait = true := by
  have hattempt : attempt w pid .calm op = none := h
  cases op with
  | statement st =>
      simp only [attempt] at hattempt
      split at hattempt
      · cases hattempt
      rename_i hfailed
      refine ⟨st, rfl, eq_false_of_ne_true hfailed, ?_⟩
      rcases hplan : st.plan (w.view pid) (w.server.others pid) w.clock Choice.calm.sql
        with wr | _ | e | _
      all_goals rw [hplan] at hattempt
      · cases hattempt
      · cases hattempt
      · cases hattempt
      · exact congrArg Plan.isWait hplan
  | batchGet | beginNested | streamFile =>
      simp only [attempt] at hattempt
      split at hattempt
      all_goals cases hattempt
  | commit | rollbackToSavepoint =>
      simp only [attempt] at hattempt
      split at hattempt
      · cases hattempt
      · split at hattempt
        all_goals cases hattempt
  | _ => cases hattempt

/-- A statement that waits for the transactions also waits when more is held. -/
theorem isWait_plan_of_subset {st : Statement} {view : Db} {held held' : List Write} {now : ℕ}
    {sql : String} (hsub : held ⊆ held') (h : (st.plan view held now sql).isWait = true) :
    (st.plan view held' now sql).isWait = true := by
  cases st with
  | updateStatus b status errors =>
      obtain ⟨hstorable, hlocked⟩ := isWait_updateStatus.mp h
      obtain ⟨wr, hwr, hlock⟩ := List.any_eq_true.mp hlocked
      exact isWait_updateStatus.mpr ⟨hstorable, List.any_eq_true.mpr ⟨wr, hsub hwr, hlock⟩⟩
  | _ =>
      obtain ⟨hempty, hstorable, hwait⟩ := isWait_planInsert.mp h
      refine isWait_planInsert.mpr ⟨hempty, hstorable, claimKeys_of_wait (fun key hkey => ?_) hwait⟩
      obtain ⟨wr, hwr, hkey⟩ := List.mem_flatMap.mp hkey
      exact List.mem_flatMap.mpr ⟨wr, hsub hwr, hkey⟩

namespace Service

variable {cfg : Settings} {ok : Service → Label → Prop} {s s' : Service} {l : Label} {q : Pid}
  {t : ReferenceTable}

/-- In a run, some process number is still free. -/
theorem exists_below {db : Db} {storage : ObjectKey → Option Bytes}
    (hruns : Runs cfg ok (initial db storage) s) : ∃ n, s.Below n := by
  induction hruns with
  | refl => exact ⟨0, fun _ _ => rfl⟩
  | tail _ hnext ih =>
      obtain ⟨n, hn⟩ := ih
      obtain ⟨l, -, hl⟩ := hnext
      refine ⟨n + l.pids.sum + 1, fun q hq => ?_⟩
      rw [(move_of_step hl).procs_of_notMem]
      · exact hn q (by omega)
      · intro hmem
        have hle := List.single_le_sum (fun _ _ => Nat.zero_le _) q hmem
        omega

/-! ## Everybody else makes statements with empty hands -/

/-- The request is a synchronous ingestion. -/
def Ingests (request : Request) : Prop := ∃ t u records, request = .ingest t u records

/-- Every running process other than the synchronous ingestions keeps to the discipline, from the
state that its session is in. -/
def Guarded (s : Service) : Prop :=
  ∀ {q request rest}, s.procs q = some ⟨request, .running rest⟩ → ¬ Ingests request →
    ∃ state, Careful rest state ∧ state.Holds q s.world

/-- Requests other than the synchronous ingestions keep to the discipline. -/
theorem careful_program (cfg : Settings) {request : Request} (h : ¬ Ingests request) :
    Careful (request.program cfg) .clear := by
  have hmap : ∀ {α : Type} {p : Prog α} {f : α → Response}, Careful p .clear →
      Careful (p.bind fun a => .pure (f a)) .clear :=
    fun hp => Program.Typed.bind (hp.mono fun {r _} _ => by cases r <;> trivial)
  cases request with
  | ingest t u records => exact absurd ⟨t, u, records, rfl⟩ h
  | ingestEmployees u file => exact hmap (careful_ingestEmployees file)
  | processEmployees b => exact hmap careful_streamAndProcess
  | getBatchStatus b => exact hmap careful_getBatchStatus
  | getMetric metric =>
      refine careful_of_uses ((uses_program cfg _).mono fun op hop st hst => ?_)
      subst hst
      exact hop.elim

/-- One step: a call takes its session along, and the sessions of the others do not change. -/
theorem Guarded.step (h : s.Guarded) (htidy : s.Tidy cfg) (hstep : s.step cfg l = some s') :
    s'.Guarded := by
  have hholds : ∀ {q actor state}, Shift s l actor s'.world → actor ≠ some q →
      SessionState.Holds q s.world state → SessionState.Holds q s'.world state := by
    intro q actor state hshift hne hstate
    have hforeign : Foreign q (fun _ => True) (fun _ => False) s.world s'.world :=
      hshift.foreign hne (fun _ _ _ _ => trivial) fun _ _ => id
    cases state with
    | unknown => trivial
    | _ => simpa only [SessionState.Holds, hforeign.own, hforeign.session, hforeign.slot] using hstate
  intro q request rest hproc' hother
  rcases (move_of_step hstep).turn q with ⟨hsame, hne, hshift⟩ | ⟨hnew, hproc, hne, hshift, -⟩ |
    ⟨-, hproc, hexec, hnext⟩ | ⟨-, hended, hends, -⟩
  · obtain ⟨state, hcareful, hstate⟩ := h (hsame.symm.trans hproc') hother
    exact ⟨state, hcareful, hholds hshift hne hstate⟩
  · cases hproc.symm.trans hproc'
    exact ⟨.clear, careful_program cfg hother, (hshift.own hne).trans (htidy.own_of_none hnew)⟩
  · cases hnext.symm.trans hproc'
    obtain ⟨state, hcareful, hstate⟩ := h hproc hother
    exact ⟨_, hcareful.2 _, hstate.next hexec⟩
  · cases hended.symm.trans hproc'
    cases hends

/-- In every run, everybody but the synchronous ingestions keeps to the discipline. -/
theorem guarded_of_runs {db : Db} {storage : ObjectKey → Option Bytes}
    (hruns : Runs cfg ok (initial db storage) s) : s.Orderly cfg ∧ s.Guarded :=
  (orderly_initial db storage).run_invariant (I := Guarded)
    (fun horderly hguarded _ hstep => Guarded.step hguarded horderly.tidy hstep) nofun hruns

/-- What an ingestion has written. -/
theorem Tidy.write_cases (h : s.Tidy cfg) {u : BatchId} {records : List ReferenceRecord}
    {rest : Prog Response} (hproc : s.procs q = some ⟨.ingest t u records, .running rest⟩)
    {e : Txn.Entry Pid Write} (he : e ∈ s.world.server.own q) :
    (∃ batch, e.write = .insertBatch batch ∧ batch.id = u) ∨
      (∃ rows, e.write = .insertReference t rows) ∨
      ∃ status errors, e.write = .updateBatch u status errors := by
  obtain ⟨st, now, hcall, hwrite⟩ := (h.running hproc).writes e he
  rw [hwrite]
  cases st with
  | addBatch id status =>
      obtain ⟨rfl, -⟩ : id = u ∧ _ := hcall
      exact Or.inl ⟨_, rfl, rfl⟩
  | updateStatus id status errors =>
      obtain ⟨rfl, -⟩ : id = u ∧ _ := hcall
      exact Or.inr (Or.inr ⟨status, errors, rfl⟩)
  | insertReference t' rows =>
      obtain ⟨rfl, -⟩ : t' = t ∧ _ := hcall
      exact Or.inr (Or.inl ⟨rows, rfl⟩)
  | insertEmployees rows => exact hcall.elim

end Service

namespace RowService

variable {cfg : Settings} {ok : Service → Label → Prop} {s s' : RowService} {p q r : Pid}
  {t : ReferenceTable} {st : Statement} {wr : Write}

/-! ## Who waits, and who can go on -/

/-- `p` can make its next call, insert one more row, or end. -/
def Ready (cfg : Settings) (s : RowService) (p : Pid) : Prop :=
  (s.step cfg (.serve (.call p .calm))).isSome ∨ (s.step cfg (.insert p)).isSome ∨
    ∃ task, (s.step cfg (.serve (.finish p task))).isSome

/-- `p` cannot go on, and `q` holds what it needs next. -/
def Waits (cfg : Settings) (s : RowService) (p q : Pid) : Prop :=
  p ≠ q ∧ ¬ s.Ready cfg p ∧ ∃ st, s.service.statement p = some st ∧
    ∃ wr ∈ s.holds q, st.Needs (s.rows p).length wr

/-- A running process that cannot go on has a statement that waits. -/
theorem wait_of_not_ready {n : ℕ} (hn : s.service.Below n) {request : Request}
    {rest : Prog Response} (hproc : s.service.procs p = some ⟨request, .running rest⟩)
    (h : ¬ s.Ready cfg p) : ∃ st, s.service.statement p = some st ∧
      (s.service.world.server.sessions p).failed = false ∧
      (st.plan (s.service.world.view p) (s.held p) s.service.world.clock "").isWait = true := by
  have hne : n ≠ p := by
    rintro rfl
    cases (hn n (Nat.le_refl n)).symm.trans hproc
  have hserve : ∀ {l : Label}, s.admits l = true → (s.service.step cfg l).isSome →
      (s.step cfg (.serve l)).isSome := by
    intro l hadmits hstep
    rw [step, if_pos hadmits, Option.isSome_map]
    exact hstep
  cases rest with
  | pure response =>
      -- a program that has ended can be finished, with a free number for its task
      refine absurd (Or.inr (Or.inr ⟨n, hserve rfl ?_⟩)) h
      simp only [Service.step, hproc]
      rcases request.task response with _ | next
      · rfl
      · have hnone : ((s.service.set p ⟨request, .returned response⟩
            (s.service.world.close p)).procs n).isNone = true := by
          rw [Service.set_procs_of_ne hne, hn n (Nat.le_refl n)]
          rfl
        simp only [hnone]
        rfl
  | throw e =>
      refine absurd (Or.inr (Or.inr ⟨n, hserve rfl ?_⟩)) h
      simp only [Service.step, hproc]
      rfl
  | call op k =>
      have hheld : s.service.world.server.others p ⊆ s.held p := List.subset_append_left _ _
      rcases hexec : exec p .calm s.service.world op with _ | ⟨r, w⟩
      · obtain ⟨st, rfl, hfailed, hwait⟩ := wait_of_blocked hexec
        exact ⟨st, by rw [Service.statement, hproc], hfailed, isWait_plan_of_subset hheld hwait⟩
      · -- the call can be made, so it waits for a row of an INSERT in progress
        have hstep : (s.service.step cfg (.call p .calm)).isSome := by
          simp only [Service.step, hproc, hexec]
          rfl
        rcases hhindered : s.hindered p with _ | _
        · exact absurd (Or.inl (hserve (by rw [admits, hhindered]; rfl) hstep)) h
        · rw [hindered] at hhindered
          split at hhindered
          · cases hhindered
          · rename_i st hst
            simp only [Bool.and_eq_true, Bool.not_eq_true'] at hhindered
            exact ⟨st, hst, hhindered.1.1, hhindered.1.2⟩

/-- What is known of an INSERT that cannot insert its next row although it could go on until it
needs `key`: it needs `key` next. -/
theorem needs_of_insert (h : s.Fitting) (hready : ¬ s.Ready cfg p)
    (hst : s.service.statement p = some st)
    (hfailed : (s.service.world.server.sessions p).failed = false) (hstorable : (st.write 0).storable)
    {free rest : List Key} {key : Key} (hkeys : (st.write 0).keys = free ++ key :: rest)
    (hfree : claimKeys (s.service.world.view p).keys ((s.held p).flatMap Write.keys) free = .granted)
    (hq : q ≠ p) (hwr : wr ∈ s.holds q) (hkey : key ∈ wr.keys) :
    st.Needs (s.rows p).length wr := by
  obtain ⟨hnodup, hunused⟩ := claimKeys_eq_granted_iff.mp hfree
  have hrow : ∀ i : ℕ, (st.rows[i]?).map Write.keys = ((free ++ key :: rest)[i]?).map fun k => [k] := by
    intro i
    rw [← hkeys]
    exact keys_getElem? _ i
  have htaken : (s.rows p).flatMap Write.keys = (free ++ key :: rest).take (s.rows p).length := by
    rw [← hkeys, ← flatMap_keys_take]
    exact congrArg (List.flatMap Write.keys) (List.prefix_iff_eq_take.mp (h.isPrefix hst))
  rcases lt_trichotomy (s.rows p).length free.length with hlt | heq | hgt
  · -- the next row could be inserted
    have hnext := hrow (s.rows p).length
    rw [List.getElem?_append_left hlt, List.getElem?_eq_getElem hlt] at hnext
    obtain ⟨row, hrow, hkeys'⟩ := Option.map_eq_some_iff.mp hnext
    have hnew : free[(s.rows p).length] ∉ free.take (s.rows p).length := by
      intro hmem
      obtain ⟨i, hi, heq⟩ := List.mem_take_iff_getElem.mp hmem
      have := (List.Nodup.getElem_inj_iff hnodup).mp heq
      omega
    obtain ⟨hview, hheld⟩ := hunused _ (List.getElem_mem hlt)
    have haccepts : s.Accepts p st row := by
      refine ⟨hfailed, hstorable, ?_⟩
      rw [hkeys', htaken, List.take_append_of_le_length hlt.le, claimKeys_eq_granted_iff]
      refine ⟨List.nodup_singleton _, fun k hk => ?_⟩
      rw [List.mem_singleton.mp hk, List.mem_append, not_or]
      exact ⟨⟨hview, hnew⟩, hheld⟩
    refine absurd (Or.inr (Or.inl ?_)) hready
    simp only [step, hst, hrow, if_pos haccepts]
    rfl
  · have hnext := hrow (s.rows p).length
    rw [List.getElem?_append_right heq.ge, heq, Nat.sub_self] at hnext
    obtain ⟨row, hrow, hkeys'⟩ := Option.map_eq_some_iff.mp hnext
    exact Or.inl ⟨row, heq ▸ hrow, key, by rw [hkeys']; exact List.mem_singleton.mpr rfl, hkey⟩
  · -- the row with the key has been inserted, so nobody else holds the key
    have hmem : key ∈ (s.rows p).flatMap Write.keys := by
      rw [htaken]
      exact List.mem_take_iff_getElem.mpr ⟨free.length, by simp; omega, by simp⟩
    obtain ⟨row, hrow, hkey'⟩ := List.mem_flatMap.mp hmem
    exact absurd hkey (h.apart hq.symm row hrow key hkey' wr hwr)

/-- A running process that cannot go on waits for another one. -/
theorem waits_of_not_ready (h : s.Fitting) {n : ℕ} (hn : s.service.Below n) {request : Request}
    {rest : Prog Response} (hproc : s.service.procs p = some ⟨request, .running rest⟩)
    (hready : ¬ s.Ready cfg p) : ∃ q, s.Waits cfg p q := by
  obtain ⟨st, hst, hfailed, hwait⟩ := wait_of_not_ready hn hproc hready
  have hinsert : st.Inserts → ∃ q, s.Waits cfg p q := by
    intro hinserts
    rw [hinserts] at hwait
    obtain ⟨-, hstorable, hclaim⟩ := isWait_planInsert.mp hwait
    obtain ⟨free, key, rest, hkeys, hheld, hfree⟩ := claimKeys_eq_wait hclaim
    obtain ⟨wr, hwr, hkey⟩ := List.mem_flatMap.mp hheld
    obtain ⟨q, hq, hwr⟩ := mem_held.mp hwr
    exact ⟨q, hq.symm, hready, st, hst, wr, hwr, needs_of_insert h hready hst hfailed
      ((storable_write st _).mp hstorable) ((keys_write st _).symm.trans hkeys) hfree hq hwr hkey⟩
  cases st with
  | updateStatus b status errors =>
      obtain ⟨-, hlocked⟩ := isWait_updateStatus.mp hwait
      obtain ⟨wr, hwr, hlock⟩ := List.any_eq_true.mp hlocked
      obtain ⟨q, hq, hwr⟩ := mem_held.mp hwr
      exact ⟨q, hq.symm, hready, _, hst, wr, hwr, Or.inr ⟨b, status, errors, rfl, hlock⟩⟩
  | addBatch b status => exact hinsert (addBatch_inserts b status)
  | insertReference t rows => exact hinsert (insertReference_inserts t rows)
  | insertEmployees rows => exact hinsert (insertEmployees_inserts rows)

/-! ## Cycles -/

/-- The request makes an INSERT of several rows, into this table. -/
inductive InsertsInto : Request → Statement → String → Prop
  | reference (t : ReferenceTable) (u : BatchId) (records : List ReferenceRecord)
      (rows : List ReferenceRow) :
      InsertsInto (.ingest t u records) (.insertReference t rows) t.name
  | employees (b : BatchId) (rows : List EmployeeValues) :
      InsertsInto (.processEmployees b) (.insertEmployees rows) "employees"

/-- The keys of an INSERT are in its table. -/
theorem InsertsInto.table_of_row {request : Request} {table : String}
    (h : InsertsInto request st table) (hwr : wr ∈ st.rows) : ∀ key ∈ wr.keys, key.table = table := by
  cases h with
  | reference t u records rows =>
      obtain ⟨row, -, rfl⟩ := List.mem_map.mp hwr
      intro key hkey
      rw [List.mem_singleton.mp hkey]
      rfl
  | employees b rows =>
      obtain ⟨row, -, rfl⟩ := List.mem_map.mp hwr
      intro key hkey
      rw [List.mem_singleton.mp hkey]
      rfl

/-- The statement that is the next call of `p`. -/
theorem statement_inv (h : s.service.statement p = some st) : ∃ request k,
    s.service.procs p = some ⟨request, .running (.call (.statement st) k)⟩ := by
  unfold Service.statement at h
  split at h
  · rename_i request st' k hproc
    cases h
    exact ⟨request, k, hproc⟩
  · cases h

/-- Whoever holds something is running. -/
theorem running_of_holds (htidy : s.service.Tidy cfg) (hfitting : s.Fitting) (hwr : wr ∈ s.holds q) :
    ∃ request rest, s.service.procs q = some ⟨request, .running rest⟩ := by
  rcases List.mem_append.mp hwr with hwrite | hrow
  · obtain ⟨e, he, -⟩ := List.mem_map.mp hwrite
    have hat := htidy q
    rcases hproc : s.service.procs q with _ | ⟨request, rest | _ | _ | _⟩
    · rw [htidy.own_of_none hproc] at he
      cases he
    · exact ⟨request, rest, rfl⟩
    all_goals
      rw [hproc] at hat
      rw [show s.service.world.server.own q = [] from hat] at he
      cases he
  · obtain ⟨st, hst, -⟩ := hfitting.ongoing (List.ne_nil_of_mem hrow)
    obtain ⟨request, k, hproc⟩ := statement_inv hst
    exact ⟨request, _, hproc⟩

/-- What a process holds that waits itself: an ingestion the writes of its transaction, and everybody
the rows of an INSERT that has not inserted its last row. -/
theorem held_cases (hguarded : s.service.Guarded) (hfitting : s.Fitting) (hwaits : s.Waits cfg q r)
    (hwr : wr ∈ s.holds q) : ∃ request st k,
      s.service.procs q = some ⟨request, .running (.call (.statement st) k)⟩ ∧
      ((∃ t u records, request = .ingest t u records ∧ ∃ e ∈ s.service.world.server.own q,
          e.write = wr) ∨
        wr ∈ st.rows ∧ wr ∈ s.rows q ∧ (s.rows q).length < st.rows.length) := by
  obtain ⟨-, -, st, hst, wr', -, hneeds⟩ := hwaits
  obtain ⟨request, k, hproc⟩ := statement_inv hst
  refine ⟨request, st, k, hproc, ?_⟩
  rcases List.mem_append.mp hwr with hwrite | hrow
  · obtain ⟨e, he, hwrite⟩ := List.mem_map.mp hwrite
    by_cases hingests : Service.Ingests request
    · obtain ⟨t, u, records, rfl⟩ := hingests
      exact Or.inl ⟨t, u, records, rfl, e, he, hwrite⟩
    · obtain ⟨state, hcareful, hstate⟩ := hguarded hproc hingests
      rw [own_of_legal hstate hcareful.1] at he
      cases he
  · have hbegins := hfitting.isPrefix hst
    refine Or.inr ⟨hbegins.subset hrow, hrow, ?_⟩
    rcases hneeds with ⟨row, hnext, -⟩ | ⟨b, status, errors, rfl, -⟩
    · exact (List.getElem?_eq_some_iff.mp hnext).1
    · cases hbegins.subset hrow

/-- Nobody else who waits holds the batch of an ingestion. -/
theorem notMem_of_held (horderly : s.service.Orderly cfg) (hguarded : s.service.Guarded)
    (hfitting : s.Fitting) {u : BatchId} {records : List ReferenceRecord} {rest : Prog Response}
    (hproc : s.service.procs p = some ⟨.ingest t u records, .running rest⟩) (hne : p ≠ q)
    (hwaits : s.Waits cfg q r) (hwr : wr ∈ s.holds q) : Key.batch u ∉ wr.keys ∧ wr.locks u = false := by
  obtain ⟨request, st, k, hproc', ⟨t', u', records', rfl, e, he, rfl⟩ | ⟨hrow, hrow', hless⟩⟩ :=
    held_cases hguarded hfitting hwaits hwr
  · -- another ingestion, with a batch id of its own
    have hdistinct : u ≠ u' := by
      rintro rfl
      exact hne (horderly.registered.creator hproc hproc' (List.mem_singleton.mpr rfl)
        (List.mem_singleton.mpr rfl))
    rcases horderly.tidy.write_cases hproc' he with ⟨batch, hwrite, rfl⟩ | ⟨rows, hwrite⟩ |
      ⟨status, errors, hwrite⟩
    · rw [hwrite]
      refine ⟨fun hkey => hdistinct ?_, rfl⟩
      exact Key.batch.inj (List.mem_singleton.mp hkey)
    · rw [hwrite]
      refine ⟨fun hkey => ?_, rfl⟩
      obtain ⟨row, -, hrow⟩ := List.mem_map.mp hkey
      cases hrow
    · rw [hwrite]
      exact ⟨List.not_mem_nil, decide_eq_false hdistinct.symm⟩
  · -- rows of an INSERT in progress: a batch is inserted alone, so it is never one of them
    refine ⟨fun hkey => ?_, locks_of_mem_rows hrow u⟩
    cases st with
    | addBatch b status =>
        have hpos := List.length_pos_of_mem hrow'
        have hone : (s.rows q).length < 1 := hless
        omega
    | updateStatus => cases hrow
    | insertReference t' rows =>
        obtain ⟨row, -, rfl⟩ := List.mem_map.mp hrow
        cases List.mem_singleton.mp hkey
    | insertEmployees rows =>
        obtain ⟨row, -, rfl⟩ := List.mem_map.mp hrow
        cases List.mem_singleton.mp hkey

/-- `p` cannot go on with an INSERT into `table`. -/
def InsertsIn (cfg : Settings) (s : RowService) (table : String) (p : Pid) : Prop :=
  ¬ s.Ready cfg p ∧ ∃ request st k,
    s.service.procs p = some ⟨request, .running (.call (.statement st) k)⟩ ∧
    InsertsInto request st table

/-- Departments, jobs and employees are inserted several rows at a time, and batches are not. -/
theorem InsertsIn.table_ne {table : String} (h : s.InsertsIn cfg table p) :
    table ≠ "ingestion_batches" := by
  obtain ⟨-, request, st, k, -, hinto⟩ := h
  cases hinto with
  | reference t => cases t <;> decide
  | employees => decide

/-- `p` holds a key of `table`. -/
def HoldsIn (s : RowService) (table : String) (p : Pid) : Prop :=
  ∃ wr ∈ s.holds p, ∃ key ∈ wr.keys, key.table = table

/-- On a cycle, everybody waits in an INSERT for a row of its table. -/
theorem insertsIn_of_cycle (horderly : s.service.Orderly cfg) (hguarded : s.service.Guarded)
    (hfitting : s.Fitting) (hwaits : s.Waits cfg p q) (hback : ReflTransGen (s.Waits cfg) q p) :
    ∃ table, s.InsertsIn cfg table p ∧ s.HoldsIn table q := by
  -- somebody waits for `p`, which therefore holds something, and `q` waits for somebody
  obtain ⟨p', -, hbefore⟩ := TransGen.tail'_iff.mp (TransGen.head' hwaits hback)
  obtain ⟨q', hafter, -⟩ := TransGen.head'_iff.mp (TransGen.tail' hback hwaits)
  obtain ⟨-, -, -, -, wr₀, hwr₀, -⟩ := hbefore
  obtain ⟨request, st, k, hproc, hheld⟩ := held_cases hguarded hfitting hwaits hwr₀
  obtain ⟨hne, hready, st', hst, wr, hwr, hneeds⟩ := hwaits
  obtain rfl : st' = st := by
    rw [Service.statement, hproc] at hst
    exact (Option.some.inj hst).symm
  have hcall : request.Calls cfg (.statement st') := (horderly.tidy.running hproc).uses.1
  have hin : ∀ {table}, InsertsInto request st' table →
      ∃ table, s.InsertsIn cfg table p ∧ s.HoldsIn table q := by
    intro table hinto
    refine ⟨table, ⟨hready, request, st', k, hproc, hinto⟩, wr, hwr, ?_⟩
    rcases hneeds with ⟨row, hrow, key, hkey, hkey'⟩ | ⟨b, status, errors, rfl, -⟩
    · exact ⟨key, hkey', hinto.table_of_row (List.mem_of_getElem? hrow) key hkey⟩
    · cases hinto
  rcases hheld with ⟨t, u, records, rfl, -⟩ | ⟨hrow, hrow', hless⟩
  · obtain ⟨hbatch, hlock⟩ := notMem_of_held horderly hguarded hfitting hproc hne hafter hwr
    cases st' with
    | addBatch b status =>
        obtain ⟨rfl, -⟩ : b = u ∧ _ := hcall
        rcases hneeds with ⟨row, hrow, key, hkey, hkey'⟩ | ⟨_, _, _, hupdate, -⟩
        · obtain rfl := List.mem_singleton.mp (List.mem_of_getElem? hrow)
          rw [List.mem_singleton.mp hkey] at hkey'
          exact absurd hkey' hbatch
        · cases hupdate
    | updateStatus b status errors =>
        obtain ⟨rfl, -⟩ : b = u ∧ _ := hcall
        rcases hneeds with ⟨row, hrow, -⟩ | ⟨_, _, _, hupdate, hlock'⟩
        · cases hrow
        · cases hupdate
          rw [hlock] at hlock'
          cases hlock'
    | insertReference t' rows =>
        obtain ⟨rfl, -⟩ : t' = t ∧ _ := hcall
        exact hin (.reference t' u records rows)
    | insertEmployees rows => exact hcall.elim
  · cases st' with
    | addBatch b status =>
        have hpos := List.length_pos_of_mem hrow'
        have hone : (s.rows p).length < 1 := hless
        omega
    | updateStatus => cases hrow
    | insertReference t' rows =>
        cases request with
        | ingest t u records =>
            obtain ⟨rfl, -⟩ : t' = t ∧ _ := hcall
            exact hin (.reference t' u records rows)
        | processEmployees b =>
            rcases hcall with hcall | hcall
            · exact hcall.elim
            · cases hcall
        | _ => exact hcall.elim
    | insertEmployees rows =>
        cases request with
        | processEmployees b => exact hin (.employees b rows)
        | _ => exact hcall.elim

/-- `p` cannot go on with an INSERT into `table`, and it holds rows of this table: the INSERT has
inserted some of its rows and not all, or the row-by-row fallback of an ingestion has inserted rows
that it has not committed. -/
def Stuck (cfg : Settings) (s : RowService) (table : String) (p : Pid) : Prop :=
  ¬ s.Ready cfg p ∧ ∃ request st k,
    s.service.procs p = some ⟨request, .running (.call (.statement st) k)⟩ ∧
    InsertsInto request st table ∧
    (s.rows p ≠ [] ∧ (s.rows p).length < st.rows.length ∨
      ∃ t u records, request = .ingest t u records ∧
        ∃ e ∈ s.service.world.server.own p, ∃ rows, e.write = .insertReference t rows)

/-- Whoever holds a key of a table and waits in an INSERT is stuck in this table. -/
theorem stuck_of_insertsIn (horderly : s.service.Orderly cfg) (hguarded : s.service.Guarded)
    (hfitting : s.Fitting) {table table' : String} (htable : table ≠ "ingestion_batches")
    (hwaits : s.Waits cfg q r) (hholds : s.HoldsIn table q) (hinserts : s.InsertsIn cfg table' q) :
    table' = table ∧ s.Stuck cfg table q := by
  obtain ⟨wr, hwr, key, hkey, rfl⟩ := hholds
  obtain ⟨hready, request, st, k, hproc, hinto⟩ := hinserts
  obtain ⟨request', st', k', hproc', hheld⟩ := held_cases hguarded hfitting hwaits hwr
  cases hproc.symm.trans hproc'
  rcases hheld with ⟨t, u, records, rfl, e, he, rfl⟩ | ⟨hrow, hrow', hless⟩
  · cases hinto with
    | reference t u records rows =>
        -- an ingestion holds its batch, and rows of its table if it is in the fallback
        rcases horderly.tidy.write_cases hproc he with ⟨batch, hwrite, -⟩ | ⟨rows', hwrite⟩ |
          ⟨status, errors, hwrite⟩
        · rw [hwrite] at hkey
          obtain rfl := List.mem_singleton.mp hkey
          exact absurd rfl htable
        · have htable : key.table = t.name := by
            rw [hwrite] at hkey
            obtain ⟨row, -, rfl⟩ := List.mem_map.mp hkey
            rfl
          rw [htable]
          exact ⟨rfl, hready, _, _, k, hproc, .reference t u records rows,
            Or.inr ⟨t, u, records, rfl, e, he, rows', hwrite⟩⟩
        · rw [hwrite] at hkey
          cases hkey
  · obtain rfl := hinto.table_of_row hrow key hkey
    exact ⟨rfl, hready, request, st, k, hproc, hinto, Or.inl ⟨List.ne_nil_of_mem hrow', hless⟩⟩

/-- Everybody on a cycle is stuck in the same table. -/
theorem stuck_of_cycle (horderly : s.service.Orderly cfg) (hguarded : s.service.Guarded)
    (hfitting : s.Fitting) (hcycle : TransGen (s.Waits cfg) q q) : ∃ table, ∀ r,
      ReflTransGen (s.Waits cfg) q r → ReflTransGen (s.Waits cfg) r q → s.Stuck cfg table r := by
  have hedge : ∀ {p r}, s.Waits cfg p r → ReflTransGen (s.Waits cfg) r p →
      ∃ table, s.InsertsIn cfg table p ∧ s.HoldsIn table r :=
    insertsIn_of_cycle horderly hguarded hfitting
  obtain ⟨p, hto, hlast⟩ := TransGen.tail'_iff.mp hcycle
  obtain ⟨table, hinserts, hholds⟩ := hedge hlast hto
  have htable := hinserts.table_ne
  -- who holds a key of the table and is on the cycle waits for the next one in this table
  have hnext : ∀ {r}, s.HoldsIn table r → ReflTransGen (s.Waits cfg) q r →
      ReflTransGen (s.Waits cfg) r q → ∀ {r'}, s.Waits cfg r r' →
      ReflTransGen (s.Waits cfg) r' q → s.Stuck cfg table r ∧ s.HoldsIn table r' := by
    intro r hholds hto hfrom r' hwaits hback
    obtain ⟨table', hinserts, hholds'⟩ := hedge hwaits (hback.trans hto)
    obtain ⟨rfl, hstuck⟩ := stuck_of_insertsIn horderly hguarded hfitting htable hwaits hholds hinserts
    exact ⟨hstuck, hholds'⟩
  have hall : ∀ {r}, ReflTransGen (s.Waits cfg) q r → ReflTransGen (s.Waits cfg) r q →
      s.HoldsIn table r := by
    intro r hto
    induction hto with
    | refl => exact fun _ => hholds
    | tail hto hwaits ih =>
        intro hfrom
        have hback := hfrom.head hwaits
        exact (hnext (ih hback) hto hback hwaits hfrom).2
  refine ⟨table, fun r hto hfrom => ?_⟩
  obtain ⟨r', hwaits, hback⟩ := TransGen.head'_iff.mp
    (TransGen.trans_right hfrom (hcycle.trans_left hto))
  exact (hnext (hall hto hfrom) hto hfrom hwaits (hback.trans hfrom)).1

/-! ## Runs -/

/-- Only finitely many processes hold anything. -/
theorem finite_holds (s : RowService) : {q | ∃ wr, wr ∈ s.holds q}.Finite := by
  refine (s.service.world.server.pending.map Txn.Entry.owner ++
    s.inserted.map Prod.fst).finite_toSet.subset ?_
  rintro q ⟨wr, hwr⟩
  rcases List.mem_append.mp hwr with hwrite | hrow
  · obtain ⟨e, he, -⟩ := List.mem_map.mp hwrite
    obtain ⟨hmem, rfl⟩ := (s.service.world.server.mem_own q).mp he
    exact List.mem_append_left _ (List.mem_map_of_mem hmem)
  · obtain ⟨x, hx, -⟩ := List.mem_map.mp hrow
    obtain ⟨hmem, howner⟩ := List.mem_filter.mp hx
    exact List.mem_append_right _ (List.mem_map.mpr ⟨x, hmem, of_decide_eq_true howner⟩)

/-- Whoever is running can go on, or waits, perhaps through others, for a process that can go on, or
for a cycle of processes that wait for each other. All of these are stuck in an INSERT into one
table, of which each has inserted rows: ingestions and workers, and nobody else. -/
theorem only_inserts_deadlock {db : Db} {storage : ObjectKey → Option Bytes}
    (hruns : Runs cfg ok (initial db storage) s) {request : Request} {rest : Prog Response}
    (hproc : s.service.procs p = some ⟨request, .running rest⟩) :
    ∃ q, ReflTransGen (s.Waits cfg) p q ∧ (s.Ready cfg q ∨
      ∃ table r, q ≠ r ∧ s.Waits cfg q r ∧ ReflTransGen (s.Waits cfg) r q ∧
        ∀ r, ReflTransGen (s.Waits cfg) q r → ReflTransGen (s.Waits cfg) r q →
          s.Stuck cfg table r) := by
  obtain ⟨horderly, hguarded⟩ := Service.guarded_of_runs (serviceRuns hruns)
  obtain ⟨n, hn⟩ := Service.exists_below (serviceRuns hruns)
  have hfitting := fitting_of_runs hruns
  have hheld : ∀ {p q}, s.Waits cfg p q → q ∈ {q | ∃ wr, wr ∈ s.holds q} := by
    rintro p q ⟨-, -, -, -, wr, hwr, -⟩
    exact ⟨wr, hwr⟩
  have hend : ∃ q, ReflTransGen (s.Waits cfg) p q ∧
      ((∀ r, ¬ s.Waits cfg q r) ∨ TransGen (s.Waits cfg) q q) :=
    Txn.exists_free_or_cycle s.finite_holds hheld p
  -- follow who waits for whom: it ends, or it gets to a cycle
  obtain ⟨q, hq, hfree | hcycle⟩ := hend
  · have hrunning : ∃ request rest, s.service.procs q = some ⟨request, .running rest⟩ := by
      rcases Relation.ReflTransGen.cases_tail hq with rfl | ⟨p', -, -, -, -, -, wr, hwr, -⟩
      · exact ⟨request, rest, hproc⟩
      · exact running_of_holds horderly.tidy hfitting hwr
    obtain ⟨request', rest', hproc'⟩ := hrunning
    refine ⟨q, hq, Or.inl ?_⟩
    -- at the end is somebody who waits for nobody and is running
    by_contra hready
    obtain ⟨r, hwaits⟩ := waits_of_not_ready hfitting hn hproc' hready
    exact hfree r hwaits
  · obtain ⟨table, hstuck⟩ := stuck_of_cycle horderly hguarded hfitting hcycle
    obtain ⟨r, hwaits, hback⟩ := TransGen.head'_iff.mp hcycle
    exact ⟨q, hq, Or.inr ⟨table, r, hwaits.1, hwaits, hback, hstuck⟩⟩

/-- A file with two employees, who have the given ids (in ASCII). -/
def pairFile (first second : UInt8) : Bytes :=
  first :: (sampleFile [65]).tail ++ [10] ++ second :: (sampleFile [66]).tail

/-- Two workers insert the employees 1 and 2 in opposite orders, and two bulk inserts the departments
2 and 3. Each has inserted its first row. -/
def crossedInserts : List RowLabel :=
  ([.arrive 0 (.ingestEmployees 8 (pairFile 49 50)), .call 0 .calm, .call 0 .calm, .call 0 .calm,
    .finish 0 1, .arrive 2 (.ingestEmployees 9 (pairFile 50 49)), .call 2 .calm, .call 2 .calm,
    .call 2 .calm, .finish 2 3, .call 1 .calm, .call 3 .calm,
    .arrive 4 (.ingest .departments 10 [⟨2, "B"⟩, ⟨3, "C"⟩]), .call 4 .calm,
    .arrive 5 (.ingest .departments 11 [⟨3, "C"⟩, ⟨2, "B"⟩]), .call 5 .calm].map .serve) ++
    [.insert 1, .insert 3, .insert 4, .insert 5]

/-- Whether `p` is running, and can neither make its next call nor insert one more row. -/
def waitsNow (s : RowService) (p : Pid) : Bool :=
  (match s.service.procs p with
    | some ⟨_, .running _⟩ => true
    | _ => false) &&
    (s.step sampleSettings (.serve (.call p .calm))).isNone &&
      (s.step sampleSettings (.insert p)).isNone

/-- Whoever waits is running. -/
theorem running_of_waitsNow (h : s.waitsNow p = true) :
    ∃ request rest, s.service.procs p = some ⟨request, .running rest⟩ := by
  rw [waitsNow, Bool.and_assoc, Bool.and_eq_true] at h
  obtain ⟨hrunning, -⟩ := h
  split at hrunning
  · rename_i request rest hproc
    exact ⟨request, rest, hproc⟩
  · cases hrunning

/-- Two workers wait for each other, and so do two synchronous ingestions. -/
theorem only_inserts_deadlock_sample :
    ∃ s, (initial sampleDb fun _ => none).follow sampleSettings crossedInserts = some s ∧
      ∀ p ∈ [1, 3, 4, 5], s.waitsNow p = true ∧
        ∃ q, ReflTransGen (s.Waits sampleSettings) p q ∧ (s.Ready sampleSettings q ∨
          ∃ table r, q ≠ r ∧ s.Waits sampleSettings q r ∧
            ReflTransGen (s.Waits sampleSettings) r q ∧
            ∀ r, ReflTransGen (s.Waits sampleSettings) q r →
              ReflTransGen (s.Waits sampleSettings) r q → s.Stuck sampleSettings table r) := by
  have hend : ((initial sampleDb fun _ => none).follow sampleSettings crossedInserts).map
      (fun s => [1, 3, 4, 5].all s.waitsNow) = some true := by
    decide +kernel
  obtain ⟨s, hs, hwaits⟩ := Option.map_eq_some_iff.mp hend
  refine ⟨s, hs, fun p hp => ?_⟩
  have hwaitsNow := List.all_eq_true.mp hwaits p hp
  obtain ⟨request, rest, hproc⟩ := running_of_waitsNow hwaitsNow
  exact ⟨hwaitsNow, only_inserts_deadlock (runs_of_follow hs) hproc⟩

end RowService

end HiringService
