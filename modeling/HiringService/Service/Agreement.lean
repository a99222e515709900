import HiringService.Metrics.AboveMean
import HiringService.Metrics.ByQuarter
import HiringService.Sequential.Worker
import HiringService.Service.Consistency

/-!
# How the two metrics compare

Departments-above-mean groups the hires by the ids of their departments, hires-by-quarter by the
names. Nothing in the tables or in the ingestion makes the names unique, so a sum over the rows of a
name is a sum over all departments that have it.
-/

namespace HiringService

/-- Q1 + Q2 + Q3 + Q4 over the hires-by-quarter rows of a department name. -/
def hiresUnderName (db : Db) (department : String) : ℕ :=
  (((hiresByQuarter db).filter fun r => r.department = department).map HiresByQuarterRow.total).sum

section

variable {db : Db}

/-- The rows of a name count the hires of all departments of that name. -/
theorem hiresUnderName_eq (h : db.Consistent) (department : String) :
    hiresUnderName db department =
      ((db.hiringDepartments.filter fun d => d.name = department).map db.hiresOf).sum := by
  have htotals := sum_totals h fun names => names.1 = department
  have hgroups := Relational.sum_filter_groups db.departmentGroup (hiredIn2021 db)
    fun group => group.2 = department
  have hperm := ((departmentGroups_perm h).filter fun group => group.2 = department).map
    fun group => ((hiredIn2021 db).filter fun e => db.departmentGroup e = group).length
  rw [hperm.sum_eq, List.filter_map, List.map_map] at hgroups
  rw [hiresUnderName, htotals]
  refine hgroups.symm.trans (congrArg List.sum (List.map_congr_left fun d hd => ?_))
  obtain ⟨hhiring, -⟩ := List.mem_filter.mp hd
  rw [Db.hiresOf, Function.comp_apply]
  refine congrArg List.length (List.filter_congr fun e _ => ?_)
  exact decide_eq_decide.mpr (departmentGroup_eq_iff h.keys (mem_hiringDepartments.mp hhiring).1 e)

/-- A department has the hires that are counted under its name exactly when no other department of
the name has hires. -/
theorem hiresUnderName_eq_iff (h : db.Consistent) {d : ReferenceRow} (hd : d ∈ db.hiringDepartments) :
    db.hiresOf d = hiresUnderName db d.name ↔
      ∀ d' ∈ db.hiringDepartments, d'.name = d.name → d' = d := by
  have hnodup : (db.hiringDepartments.filter fun d' => d'.name = d.name).Nodup :=
    (((reference_ids_nodup h.keys .departments).of_map _).filter _).filter _
  have hmem : d ∈ db.hiringDepartments.filter fun d' => d'.name = d.name :=
    List.mem_filter.mpr ⟨hd, decide_eq_true rfl⟩
  have hpos : ∀ d' ∈ db.hiringDepartments.filter (fun d' => d'.name = d.name), 0 < db.hiresOf d' :=
    fun d' hd' => (mem_hiringDepartments.mp (List.mem_of_mem_filter hd')).2
  rw [hiresUnderName_eq h, eq_comm, Relational.sum_eq_self_iff hnodup hmem hpos]
  simp only [List.mem_filter, decide_eq_true_eq, and_imp]

end

namespace Service

variable {cfg : Settings} {s : Service}

/-- In every state that the service can reach, the rows of a department's name count the hires of
all departments of that name. So a department that is above the mean has as many hires as these rows
count exactly when no other department of its name has hires. -/
theorem metrics_agree_iff {db : Db} {storage : ObjectKey → Option Bytes} (hdb : db.Consistent)
    (hruns : Runs cfg (fun _ _ => True) (initial db storage) s) {r : DepartmentHires}
    (hr : r ∈ departmentsAboveMean s.world.db) :
    hiresUnderName s.world.db r.department =
        ((s.world.db.hiringDepartments.filter fun d => d.name = r.department).map
          s.world.db.hiresOf).sum ∧
      (r.hired = hiresUnderName s.world.db r.department ↔
        ∀ d ∈ s.world.db.hiringDepartments, d.name = r.department → d.id = r.id) := by
  have h := consistent_of_runs hdb hruns
  obtain ⟨d, hd, rfl, -⟩ := (mem_departmentsAboveMean h).mp hr
  refine ⟨hiresUnderName_eq h d.name, (hiresUnderName_eq_iff h hd).trans ?_⟩
  constructor
  · intro hall d' hd' hname
    exact congrArg ReferenceRow.id (hall d' hd' hname)
  · intro hall d' hd' hname
    exact List.inj_on_of_nodup_map (reference_ids_nodup h.keys .departments)
      (mem_hiringDepartments.mp hd').1 (mem_hiringDepartments.mp hd).1 (hall d' hd' hname)

/-- An empty database. -/
def emptyDb : Db := ⟨[], [], [], []⟩

/-- An employees file: two hires of the department 1 and one of the department 2. -/
def hiresFile : Bytes :=
  [49, 44, 88] ++ date ++ [49, 44, 49, 10, 50, 44, 89] ++ date ++ [49, 44, 49, 10, 51, 44, 90] ++
    date ++ [50, 44, 49]
where
  /-- The column of 2021-01-01, with the commas around it. -/
  date : Bytes := [44, 50, 48, 50, 49, 45, 48, 49, 45, 48, 49, 44]

/-- Two departments of one name and a job are ingested, and then the file. -/
def sameNames : List Label :=
  ([.arrive 0 (.ingest .departments 1 [⟨1, "A"⟩, ⟨2, "A"⟩])] : List Label) ++
    List.replicate 4 (Label.call 0 .calm) ++
    ([.finish 0 0, .arrive 1 (.ingest .jobs 2 [⟨1, "J"⟩])] : List Label) ++
    List.replicate 4 (Label.call 1 .calm) ++
    ([.finish 1 1, .arrive 2 (.ingestEmployees 3 hiresFile)] : List Label) ++
    List.replicate 3 (Label.call 2 .calm) ++ [Label.finish 2 3] ++
    List.replicate 8 (Label.call 3 .calm) ++ [Label.finish 3 4]

/-- The first of the two departments is listed with its own hires; the rows of the name count those
of both. -/
theorem sameNames_end : ((initial emptyDb fun _ => none).follow sampleSettings (fun _ _ => true)
    sameNames).map (fun s => (departmentsAboveMean s.world.db, hiresUnderName s.world.db "A")) =
      some ([⟨1, "A", 2⟩], 3) := by
  decide +kernel

theorem metrics_agree_iff_sample :
    ∃ s, (initial emptyDb fun _ => none).follow sampleSettings (fun _ _ => true) sameNames =
        some s ∧
      ∃ r ∈ departmentsAboveMean s.world.db, (r.hired = hiresUnderName s.world.db r.department ↔
        ∀ d ∈ s.world.db.hiringDepartments, d.name = r.department → d.id = r.id) := by
  obtain ⟨s, hs, hend⟩ := Option.map_eq_some_iff.mp sameNames_end
  have hr : ⟨1, "A", 2⟩ ∈ departmentsAboveMean s.world.db := by
    rw [(Prod.mk.inj hend).1]
    exact List.mem_cons_self
  have hempty : emptyDb.Consistent := ⟨List.nodup_nil, nofun⟩
  exact ⟨s, hs, _, hr,
    (metrics_agree_iff hempty (runs_of_test (fun _ _ _ => trivial) hs) hr).2⟩

/-- Two departments of one name make the metrics disagree. -/
theorem metrics_disagree_on_equal_names :
    ¬ ∀ s, Runs sampleSettings (fun _ _ => True) (initial emptyDb fun _ => none) s →
      ∀ r ∈ departmentsAboveMean s.world.db, r.hired = hiresUnderName s.world.db r.department := by
  intro hall
  obtain ⟨s, hs, hend⟩ := Option.map_eq_some_iff.mp sameNames_end
  obtain ⟨habove, hsum⟩ := Prod.mk.inj hend
  have hr : ⟨1, "A", 2⟩ ∈ departmentsAboveMean s.world.db := by
    rw [habove]
    exact List.mem_cons_self
  have heq := hall s (runs_of_test (fun _ _ _ => trivial) hs) _ hr
  rw [show hiresUnderName s.world.db (⟨1, "A", 2⟩ : DepartmentHires).department = 3 from hsum] at heq
  exact absurd heq (by decide)

end Service

end HiringService
