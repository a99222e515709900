import HiringService.Metrics.Joins
import HiringService.Service.Keys
import HiringService.Service.Registry

/-!
# Referential integrity in every run, and what it means for the metrics

A pending employee refers to a committed department and a committed job: foreign keys are checked
against what the session sees, and a transaction that writes employees writes no departments or
jobs. So every committed state of a run is consistent, and the ingestion of departments and jobs,
which only appends rows to the two tables, does not change the result of a query.
-/

namespace HiringService

/-- Only the insert of employees writes employees. -/
theorem Statement.write_eq_insertEmployees {s : Statement} {now : ℕ} {rows : List EmployeeValues}
    (h : s.write now = .insertEmployees rows) : s = .insertEmployees rows := by
  cases s with
  | insertEmployees rows' => exact congrArg _ (Write.insertEmployees.inj h)
  | _ => cases h

section Writes

variable {db : Db} {ws : List Write}

theorem EmployeeRow.Anchored.foldl {e : EmployeeRow} (h : e.Anchored db) (ws : List Write) :
    e.Anchored (ws.foldl Db.apply db) :=
  ⟨mem_keys_foldl h.1 ws, mem_keys_foldl h.2 ws⟩

/-- An employee after some writes was there before, or one of the writes inserts it. -/
theorem mem_employees_foldl {e : EmployeeRow} (he : e ∈ (ws.foldl Db.apply db).employees) :
    e ∈ db.employees ∨
      ∃ rows, Write.insertEmployees rows ∈ ws ∧ ∃ values ∈ rows, values.toEmployeeRow = e := by
  induction ws generalizing db with
  | nil => exact Or.inl he
  | cons wr ws ih =>
      rcases ih he with hbefore | ⟨rows, hrows, he⟩
      · cases wr with
        | insertEmployees rows =>
            rcases List.mem_append.mp hbefore with hbefore | hnew
            · exact Or.inl hbefore
            · exact Or.inr ⟨rows, List.mem_cons_self, List.mem_map.mp hnew⟩
        | insertReference t rows =>
            rw [apply_insertReference_employees] at hbefore
            exact Or.inl hbefore
        | _ => exact Or.inl hbefore
      · exact Or.inr ⟨rows, List.mem_cons_of_mem _ hrows, he⟩

/-- A key of a reference table is new only if a write to the table claims it. -/
theorem mem_keys_of_foldl {t : ReferenceTable} {id : ℤ} (hws : ∀ wr ∈ ws, Key.reference t id ∉ wr.keys)
    (h : Key.reference t id ∈ (ws.foldl Db.apply db).keys) : Key.reference t id ∈ db.keys := by
  induction ws generalizing db with
  | nil => exact h
  | cons wr ws ih =>
      have happly := ih (fun wr' hwr' => hws wr' (List.mem_cons_of_mem wr hwr')) h
      rw [(keys_apply db wr).mem_iff, List.mem_append] at happly
      exact happly.resolve_right (hws wr List.mem_cons_self)

/-- Writes that insert no employees extend the database. -/
theorem extends_foldl (hws : ∀ wr ∈ ws, ∀ rows, wr ≠ .insertEmployees rows) :
    db.Extends (ws.foldl Db.apply db) := by
  induction ws generalizing db with
  | nil => exact .refl db
  | cons wr ws ih =>
      refine Db.Extends.trans ?_ (ih fun wr' hwr' => hws wr' (List.mem_cons_of_mem wr hwr'))
      cases wr with
      | insertBatch batch => exact ⟨rfl, fun t => ⟨[], by simp⟩⟩
      | updateBatch id status errors => exact ⟨rfl, fun t => ⟨[], by simp⟩⟩
      | insertReference t rows =>
          exact ⟨apply_insertReference_employees db rows t, fun t' => ⟨_,
            apply_insertReference_reference db rows t t'⟩⟩
      | insertEmployees rows => exact absurd rfl (hws _ List.mem_cons_self rows)

end Writes

/-! ## The invariant -/

/-- All employees, committed or pending, refer to committed departments and jobs. -/
structure World.Anchored (w : World) : Prop where
  employees : ∀ e ∈ w.db.employees, e.Anchored w.db
  pending : ∀ q, ∀ entry ∈ w.server.own q, ∀ rows, entry.write = .insertEmployees rows →
    ∀ e ∈ rows, e.Anchored w.db

section Calls

variable {pid : Pid} {w w' : World} {op : Op}

/-- A call keeps the invariant, if the employees that it inserts refer to committed rows. -/
theorem World.Anchored.called (h : w.Anchored) (hcalled : Called pid op w w')
    (hnew : ∀ rows, op = .statement (.insertEmployees rows) →
      (Statement.insertEmployees rows).Planned pid w → ∀ e ∈ rows, e.Anchored w.db) :
    w'.Anchored := by
  rcases hcalled.db with ⟨-, hpublished⟩ | hdb
  · -- a commit only adds rows, so what was anchored before still is
    have hfoldl : w'.db = (w.server.writes pid).foldl Db.apply w.db := hpublished.db
    refine ⟨fun e he => ?_, fun q entry hentry rows hrows e he => ?_⟩
    · rw [hfoldl] at he ⊢
      rcases mem_employees_foldl he with hbefore | ⟨rows, hrows, values, hvalues, rfl⟩
      · exact (h.employees e hbefore).foldl _
      · obtain ⟨entry, hentry, hwrite⟩ := List.mem_map.mp hrows
        exact (h.pending pid entry hentry rows hwrite values hvalues).foldl _
    · rcases eq_or_ne q pid with rfl | hq
      · rw [hpublished.own_self] at hentry
        cases hentry
      · rw [hpublished.own q hq] at hentry
        rw [hfoldl]
        exact (h.pending q entry hentry rows hrows e he).foldl _
  · refine ⟨fun e he => ?_, fun q entry hentry rows hrows e he => ?_⟩
    · rw [hdb] at he ⊢
      exact h.employees e he
    · rw [hdb]
      rcases eq_or_ne q pid with rfl | hq
      · rcases hcalled.own_self with hsublist | ⟨s, rfl, hplanned, hown⟩
        · exact h.pending q entry (hsublist.subset hentry) rows hrows e he
        · rw [hown] at hentry
          rcases List.mem_append.mp hentry with hentry | hentry
          · exact h.pending q entry hentry rows hrows e he
          · obtain rfl := List.mem_singleton.mp hentry
            obtain rfl := Statement.write_eq_insertEmployees hrows
            exact hnew rows rfl hplanned e he
      · rw [hcalled.own_other q hq] at hentry
        exact h.pending q entry hentry rows hrows e he

theorem World.Anchored.close (h : w.Anchored) (pid : Pid) : (w.close pid).Anchored := by
  refine ⟨h.employees, fun q entry hentry rows hrows e he => ?_⟩
  rcases eq_or_ne q pid with rfl | hq
  · rw [show (w.close q).server.own q = [] from w.server.rollback_own_self q] at hentry
    cases hentry
  · rw [show (w.close pid).server.own q = w.server.own q from
      w.server.rollback_own_of_ne hq] at hentry
    exact h.pending q entry hentry rows hrows e he

/-- In a session that has only written employees, an insert of employees that goes through refers to
committed rows. -/
theorem Statement.Planned.anchored {rows : List EmployeeValues}
    (h : (Statement.insertEmployees rows).Planned pid w)
    (hown : ∀ wr ∈ w.server.writes pid, ∀ t id, Key.reference t id ∉ wr.keys) :
    ∀ e ∈ rows, e.Anchored w.db := by
  obtain ⟨sql, hplan⟩ := h
  have hspec := planInsert_spec (w.view pid) (w.server.others pid) sql (.insertEmployees rows)
  rw [show planInsert (w.view pid) (w.server.others pid) sql (.insertEmployees rows) = _ from
    hplan] at hspec
  obtain ⟨-, -, hadmits, -⟩ := hspec
  have hcommitted : ∀ t id, Key.reference t id ∈ (w.view pid).keys →
      Key.reference t id ∈ w.db.keys := fun t id hkey =>
    mem_keys_of_foldl (fun wr hwr => hown wr hwr t id) hkey
  intro e he
  have htarget : ∀ fk ∈ [(⟨"employees", "batch_id", .batch e.batchId⟩ : ForeignKey),
      ⟨"employees", "department_id", .reference .departments e.departmentId⟩,
      ⟨"employees", "job_id", .reference .jobs e.jobId⟩], fk.target ∈ (w.view pid).keys :=
    fun fk hfk => hadmits.foreignKeys fk (List.mem_flatMap.mpr ⟨e, he, hfk⟩)
  exact ⟨hcommitted _ _ (htarget _ (List.mem_cons_of_mem _ List.mem_cons_self)),
    hcommitted _ _ (htarget _ (List.mem_cons_of_mem _ (List.mem_cons_of_mem _ List.mem_cons_self)))⟩

end Calls

/-- A request that inserts employees writes nothing to the reference tables. -/
theorem Request.Writes.reference_notMem {cfg : Settings} {request : Request} {wr : Write}
    (h : request.Writes cfg wr) {rows : List EmployeeValues}
    (hcalls : request.Calls cfg (.statement (.insertEmployees rows))) (t : ReferenceTable) (id : ℤ) :
    Key.reference t id ∉ wr.keys := by
  obtain ⟨st, now, hst, rfl⟩ := h
  cases request with
  | processEmployees b =>
      replace hst : Op.OfWriter b (.statement st) := hst.resolve_right nofun
      cases st with
      | updateStatus id status errors => exact List.not_mem_nil
      | insertEmployees rows' =>
          intro hkey
          obtain ⟨e, -, he⟩ := List.mem_map.mp hkey
          cases he
      | _ => exact hst.elim
  | _ => exact hcalls.elim

/-- An ingestion inserts no employees. -/
theorem Request.Writes.ne_insertEmployees {cfg : Settings} {t : ReferenceTable} {u : BatchId}
    {records : List ReferenceRecord} {wr : Write} (h : (Request.ingest t u records).Writes cfg wr)
    (rows : List EmployeeValues) : wr ≠ .insertEmployees rows := by
  obtain ⟨st, now, hst, rfl⟩ := h
  intro hwrite
  obtain rfl := Statement.write_eq_insertEmployees hwrite
  exact hst.elim

namespace Service

variable {cfg : Settings} {s s' : Service} {l : Label}

theorem anchored_initial {db : Db} (h : db.Consistent) (storage : ObjectKey → Option Bytes) :
    (initial db storage).world.Anchored :=
  ⟨h.employees, nofun⟩

theorem Shift.anchored {actor : Option Pid} {w : World} (h : Shift s l actor w) (htidy : s.Tidy cfg)
    (hanchored : s.world.Anchored) : w.Anchored := by
  cases h with
  | call _ hproc hexec =>
      have hprogress := htidy.running hproc
      refine hanchored.called (exec_called hexec) ?_
      rintro rows rfl hplanned
      refine hplanned.anchored fun wr hwr t id => ?_
      obtain ⟨entry, hentry, rfl⟩ := List.mem_map.mp hwr
      exact (hprogress.writes entry hentry).reference_notMem hprogress.uses.1 t id
  | close => exact hanchored.close _
  | still hserver =>
      refine ⟨?_, ?_⟩
      · rw [World.db, hserver]
        exact hanchored.employees
      · rw [World.db, hserver]
        exact hanchored.pending

theorem tidy_of_runs {ok : Service → Label → Prop} {db : Db} {storage : ObjectKey → Option Bytes}
    (hruns : Runs cfg ok (initial db storage) s) : s.Tidy cfg := by
  induction hruns with
  | refl => exact tidy_initial db storage
  | tail _ hnext ih =>
      obtain ⟨l, -, hstep⟩ := hnext
      exact ih.step hstep

/-- Every committed state of a run is consistent, if the first one is. -/
theorem consistent_of_runs {ok : Service → Label → Prop} {db : Db}
    {storage : ObjectKey → Option Bytes} (hdb : db.Consistent)
    (hruns : Runs cfg ok (initial db storage) s) : s.world.db.Consistent := by
  have hanchored : s.world.Anchored := by
    induction hruns with
    | refl => exact anchored_initial hdb storage
    | tail hbefore hnext ih =>
        obtain ⟨l, -, hstep⟩ := hnext
        obtain ⟨actor, hshift⟩ := (move_of_step hstep).shift
        exact hshift.anchored (tidy_of_runs hbefore) ih
  exact ⟨keys_nodup_of_runs hdb.keys hruns, hanchored.employees⟩

/-! ## The metrics -/

/-- The step publishes nothing, or what an ingestion of departments or jobs has written. -/
def PublishesReferences (s : Service) (l : Label) : Prop :=
  ∀ q request, s.Publishes l q request → ∃ t u records, request = .ingest t u records

theorem Tidy.extends_step (h : s.Tidy cfg) (hok : PublishesReferences s l)
    (hstep : s.step cfg l = some s') : s.world.db.Extends s'.world.db := by
  obtain ⟨actor, hshift⟩ := (move_of_step hstep).shift
  rcases hshift.db with hsame | ⟨q, request, -, hpublishes, hpublished⟩
  · rw [hsame]
    exact .refl _
  · obtain ⟨t, u, records, rfl⟩ := hok q request hpublishes
    obtain ⟨c, k, -, hproc⟩ := hpublishes
    rw [hpublished.db]
    refine extends_foldl fun wr hwr rows => ?_
    obtain ⟨entry, hentry, rfl⟩ := List.mem_map.mp hwr
    exact ((h.running hproc).writes entry hentry).ne_insertEmployees rows

/-- Without other commits, the ingestions extend the database. -/
theorem Tidy.extends_of_runs (h : s.Tidy cfg) (hruns : Runs cfg PublishesReferences s s') :
    s'.Tidy cfg ∧ s.world.db.Extends s'.world.db := by
  induction hruns with
  | refl => exact ⟨h, .refl _⟩
  | tail _ hnext ih =>
      obtain ⟨l, hok, hstep⟩ := hnext
      obtain ⟨htidy, hext⟩ := ih
      exact ⟨htidy.step hstep, hext.trans (htidy.extends_step hok hstep)⟩

/-- From any state that the service can reach, while departments and jobs are ingested, whatever the
records are and whatever raises, and whatever else runs without committing: the queries return the
same rows at the end as at the start. -/
theorem metrics_keep_during_ingestions {db : Db} {storage : ObjectKey → Option Bytes}
    (hdb : db.Consistent) (hruns : Runs cfg (fun _ _ => True) (initial db storage) s)
    (hruns' : Runs cfg PublishesReferences s s') (metric : Metric) :
    (metric.rows s'.world.db).Perm (metric.rows s.world.db) := by
  have hall : Runs cfg (fun _ _ => True) s s' := by
    refine Relation.ReflTransGen.mono (fun _ _ hnext => ?_) _ _ hruns'
    obtain ⟨l, -, hstep⟩ := hnext
    exact ⟨l, trivial, hstep⟩
  obtain ⟨-, hext⟩ := (tidy_of_runs hruns).extends_of_runs hruns'
  rw [hext.rows (consistent_of_runs hdb hruns) (consistent_of_runs hdb (hruns.trans hall)) metric]

/-- An ingestion of a department that exists and of a new one, under a name that is in use. -/
def partialIngestion : List Label :=
  [.arrive 0 (.ingest .departments 8 [⟨1, "B"⟩, ⟨3, "A"⟩])] ++ List.replicate 11 (.call 0 .calm) ++
    [.finish 0 1]

/-- A test for steps that publish nothing but ingestions. -/
def publishesReferences (s : Service) : Label → Bool
  | .call pid _ =>
      match s.procs pid with
      | some ⟨.ingest .., _⟩ => true
      | _ => false
  | _ => true

theorem publishesReferences_of_test (s : Service) (l : Label) (h : publishesReferences s l = true) :
    PublishesReferences s l := by
  rintro q request ⟨c, k, rfl, hproc⟩
  rw [publishesReferences, hproc] at h
  cases request with
  | ingest t u records => exact ⟨t, u, records, rfl⟩
  | _ => cases h

theorem metrics_keep_during_ingestions_sample :
    ∃ s, (initial hiringDb fun _ => none).follow ⟨"hiring", 2, 600⟩ publishesReferences
        partialIngestion = some s ∧
      s.world.db.departments = [⟨1, "A", 7⟩, ⟨2, "A", 7⟩, ⟨3, "A", 8⟩] ∧
      (Metric.departmentsAboveMean.rows s.world.db).Perm
        (Metric.departmentsAboveMean.rows hiringDb) := by
  have hend : ((initial hiringDb fun _ => none).follow ⟨"hiring", 2, 600⟩ publishesReferences
      partialIngestion).map (fun s => s.world.db.departments) =
      some [⟨1, "A", 7⟩, ⟨2, "A", 7⟩, ⟨3, "A", 8⟩] := by
    decide +kernel
  obtain ⟨s, hs, hdepartments⟩ := Option.map_eq_some_iff.mp hend
  exact ⟨s, hs, hdepartments, metrics_keep_during_ingestions hiringDb_consistent .refl
    (runs_of_test publishesReferences_of_test hs) .departmentsAboveMean⟩

end Service

end HiringService
