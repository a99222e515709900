import HiringService.Metrics.Joins

/-!
# What hires-by-quarter returns

In a consistent database every hire of 2021 is in one group, that of the names of its department and
its job, and its month is in one quarter. Names may repeat; the groups of equal names are one row.
-/

namespace HiringService

/-- The employee is in a department and has a job of these names. -/
def Db.EmployedAs (db : Db) (e : EmployeeRow) (department job : String) : Prop :=
  (∃ d ∈ db.departments, d.id = e.departmentId ∧ d.name = department) ∧
    ∃ j ∈ db.jobs, j.id = e.jobId ∧ j.name = job

instance (db : Db) (e : EmployeeRow) (department job : String) :
    Decidable (db.EmployedAs e department job) := by unfold Db.EmployedAs; infer_instance

/-- Q1 + Q2 + Q3 + Q4. -/
def HiresByQuarterRow.total (r : HiresByQuarterRow) : ℕ := (r.hires.map Prod.snd).sum

/-! ## Quarters -/

/-- The ranges of the template do not overlap and leave no month out. -/
theorem countP_quarters {month : ℕ} (h : 1 ≤ month ∧ month ≤ 12) :
    (quarters.countP fun q => q.contains month) = 1 := by
  have hall : ∀ m ≤ 12, 1 ≤ m → (quarters.countP fun q => q.contains m) = 1 := by decide
  exact hall month h.2 h.1

section

variable {db : Db}

/-- The month of a hire. -/
theorem month_of_mem {e : EmployeeRow} (he : e ∈ hiredIn2021 db) : 1 ≤ e.month ∧ e.month ≤ 12 := by
  have hyear : e.year = 2021 := (mem_hiredIn2021.mp he).2
  refine Python.ofOrdinal_month (Python.pos_of_year_pos ?_)
  rw [show (Python.ofOrdinal _).1 = 2021 from hyear]
  omega

/-! ## Groups -/

/-- An employee is in the group of the names of its department and its job. -/
theorem namesOf_eq_iff (h : db.Consistent) {e : EmployeeRow} (he : e ∈ hiredIn2021 db)
    (names : String × String) : db.namesOf e = names ↔ db.EmployedAs e names.1 names.2 := by
  obtain ⟨hdepartment, hdid⟩ := h.department he
  obtain ⟨hjob, hjid⟩ := h.job he
  constructor
  · rintro rfl
    exact ⟨⟨_, hdepartment, hdid, rfl⟩, _, hjob, hjid, rfl⟩
  · rintro ⟨⟨d, hd, hid, hname⟩, j, hj, hid', hname'⟩
    refine Prod.ext ?_ ?_
    · rw [← hname, Db.namesOf, ← hid, lookup_eq_of_mem (t := .departments) h.keys hd]
    · rw [← hname', Db.namesOf, ← hid', lookup_eq_of_mem (t := .jobs) h.keys hj]

/-- The groups of the query. -/
def Db.nameGroups (db : Db) : List (String × String) := ((hiredIn2021 db).map db.namesOf).dedup

/-- The row of a group. -/
def Db.quarterRow (db : Db) (names : String × String) : HiresByQuarterRow where
  department := names.1
  job := names.2
  hires := quarters.map fun q =>
    (q.name, ((hiredIn2021 db).filter fun e => db.namesOf e = names ∧ q.contains e.month).length)

theorem hiresByQuarter_eq (h : db.Consistent) :
    hiresByQuarter db = (db.nameGroups.insertionSort namesLe).map db.quarterRow := by
  have hnames : (joinNames db).map Prod.fst = (hiredIn2021 db).map db.namesOf := by
    rw [joinNames_eq h, List.map_map]
    rfl
  rw [hiresByQuarter, hnames, Db.nameGroups]
  refine List.map_congr_left fun names _ => ?_
  rw [Db.quarterRow]
  refine congrArg (HiresByQuarterRow.mk names.1 names.2) (List.map_congr_left fun q _ => ?_)
  rw [joinNames_eq h, List.filter_map, List.length_map]
  rfl

theorem hiresByQuarter_perm (h : db.Consistent) :
    (hiresByQuarter db).Perm (db.nameGroups.map db.quarterRow) := by
  rw [hiresByQuarter_eq h]
  exact (List.perm_insertionSort _ _).map _

/-- The quarters of a row add up to the size of its group. -/
theorem total_quarterRow (names : String × String) : (db.quarterRow names).total =
    ((hiredIn2021 db).filter fun e => db.namesOf e = names).length := by
  have hparts := @Relational.sum_parts EmployeeRow Quarter quarters (fun q e => q.contains e.month)
    ((hiredIn2021 db).filter fun e => db.namesOf e = names)
    fun e he => countP_quarters (month_of_mem (List.mem_of_mem_filter he))
  rw [← hparts, HiresByQuarterRow.total, Db.quarterRow, List.map_map]
  refine congrArg List.sum (List.map_congr_left fun q _ => ?_)
  rw [Function.comp_apply, List.filter_filter]
  refine congrArg List.length (List.filter_congr fun e _ => ?_)
  rw [Bool.decide_and, Bool.and_comm, Bool.decide_eq_true]

/-- The rows whose names satisfy a condition count the hires whose names satisfy it. -/
theorem sum_totals (h : db.Consistent) (p : String × String → Bool) :
    ((((hiresByQuarter db).filter fun r => p (r.department, r.job)).map
      HiresByQuarterRow.total)).sum = ((hiredIn2021 db).filter fun e => p (db.namesOf e)).length := by
  have hperm := ((hiresByQuarter_perm h).filter fun r => p (r.department, r.job)).map
    HiresByQuarterRow.total
  rw [hperm.sum_eq, List.filter_map, List.map_map]
  have hgroups := Relational.sum_filter_groups db.namesOf (hiredIn2021 db) p
  rw [← hgroups]
  exact congrArg List.sum (List.map_congr_left fun names _ => total_quarterRow names)

/-! ## The result -/

theorem mem_hiresByQuarter (h : db.Consistent) {r : HiresByQuarterRow} :
    r ∈ hiresByQuarter db ↔ ∃ e ∈ hiredIn2021 db, r = db.quarterRow (db.namesOf e) := by
  rw [(hiresByQuarter_perm h).mem_iff, List.mem_map]
  constructor
  · rintro ⟨names, hnames, rfl⟩
    obtain ⟨e, he, rfl⟩ := List.mem_map.mp (List.mem_dedup.mp hnames)
    exact ⟨e, he, rfl⟩
  · rintro ⟨e, he, rfl⟩
    exact ⟨_, List.mem_dedup.mpr (List.mem_map.mpr ⟨e, he, rfl⟩), rfl⟩

/-- The names of the rows do not repeat. -/
theorem names_nodup (h : db.Consistent) :
    ((hiresByQuarter db).map fun r => (r.department, r.job)).Nodup := by
  rw [((hiresByQuarter_perm h).map _).nodup_iff, List.map_map]
  have hid : db.nameGroups.map ((fun r => (r.department, r.job)) ∘ db.quarterRow) = db.nameGroups :=
    List.map_id _
  rw [hid]
  exact List.nodup_dedup _

/-- The counts of a row are those of the employees under its names. -/
theorem quarterRow_hires (h : db.Consistent) (names : String × String) :
    (db.quarterRow names).hires = quarters.map fun q =>
      (q.name, ((hiredIn2021 db).filter fun e =>
        q.contains e.month ∧ db.EmployedAs e names.1 names.2).length) := by
  refine List.map_congr_left fun q _ => ?_
  refine congrArg (fun rows => (q.name, List.length rows)) (List.filter_congr fun e he => ?_)
  refine decide_eq_decide.mpr ?_
  rw [namesOf_eq_iff h he, and_comm]

/-- A row of a hire counts something: if all the counts were zero, so would be the size of the
group. -/
theorem exists_count_pos {e : EmployeeRow} (he : e ∈ hiredIn2021 db) :
    ∃ count ∈ (db.quarterRow (db.namesOf e)).hires, 0 < count.2 := by
  by_contra hzero
  have htotal : (db.quarterRow (db.namesOf e)).total = 0 := by
    refine List.sum_eq_zero fun n hn => ?_
    obtain ⟨count, hcount, rfl⟩ := List.mem_map.mp hn
    by_contra hne
    exact hzero ⟨count, hcount, Nat.pos_of_ne_zero hne⟩
  have hgroup := @Relational.group_pos EmployeeRow (String × String) _ db.namesOf (hiredIn2021 db)
    (db.namesOf e) (List.mem_dedup.mpr (List.mem_map.mpr ⟨e, he, rfl⟩))
  rw [← total_quarterRow, htotal] at hgroup
  omega

/-- A hire is counted in the row of its names, and in no other. -/
theorem existsUnique_row (h : db.Consistent) {e : EmployeeRow} (he : e ∈ hiredIn2021 db) :
    ∃! r, r ∈ hiresByQuarter db ∧ db.EmployedAs e r.department r.job := by
  refine ⟨db.quarterRow (db.namesOf e), ⟨(mem_hiresByQuarter h).mpr ⟨e, he, rfl⟩,
    (namesOf_eq_iff h he _).mp rfl⟩, ?_⟩
  rintro r ⟨hr, hemployed⟩
  obtain ⟨e', he', rfl⟩ := (mem_hiresByQuarter h).mp hr
  rw [(namesOf_eq_iff h he (db.namesOf e')).mpr hemployed]

/-- The month of a hire is in one quarter. -/
theorem existsUnique_quarter {e : EmployeeRow} (he : e ∈ hiredIn2021 db) :
    ∃! q, q ∈ quarters ∧ q.contains e.month := by
  have hone := countP_quarters (month_of_mem he)
  rw [List.countP_eq_length_filter, List.length_eq_one_iff] at hone
  obtain ⟨q, hq⟩ := hone
  have hiff : ∀ q', q' ∈ quarters ∧ q'.contains e.month ↔ q' = q := by
    intro q'
    have hfilter : q' ∈ [q] ↔ q' ∈ quarters ∧ q'.contains e.month := by
      rw [← hq, List.mem_filter]
    exact hfilter.symm.trans List.mem_singleton
  exact ⟨q, (hiff q).mpr rfl, fun q' hq' => (hiff q').mp hq'⟩

/-- The query has at most one row for a pair of names. A row counts, for every quarter, the hires of
the quarter's months under departments and jobs of its names, and some count is not zero. Every hire
of 2021 is counted in exactly one row and one quarter of it, so all the counts add up to the number
of hires. -/
theorem hiresByQuarter_spec (h : db.Consistent) :
    ((hiresByQuarter db).map fun r => (r.department, r.job)).Nodup ∧
      (∀ r ∈ hiresByQuarter db, r.hires = quarters.map fun q =>
        (q.name, ((hiredIn2021 db).filter fun e =>
          q.contains e.month ∧ db.EmployedAs e r.department r.job).length)) ∧
      (∀ r ∈ hiresByQuarter db, ∃ count ∈ r.hires, 0 < count.2) ∧
      (∀ e ∈ hiredIn2021 db, (∃! r, r ∈ hiresByQuarter db ∧ db.EmployedAs e r.department r.job) ∧
        ∃! q, q ∈ quarters ∧ q.contains e.month) ∧
      ((hiresByQuarter db).map HiresByQuarterRow.total).sum = (hiredIn2021 db).length := by
  refine ⟨names_nodup h, fun r hr => ?_, fun r hr => ?_,
    fun e he => ⟨existsUnique_row h he, existsUnique_quarter he⟩, ?_⟩
  · obtain ⟨e, -, rfl⟩ := (mem_hiresByQuarter h).mp hr
    exact quarterRow_hires h (db.namesOf e)
  · obtain ⟨e, he, rfl⟩ := (mem_hiresByQuarter h).mp hr
    exact exists_count_pos he
  · have hsum := sum_totals h fun _ => true
    simp only [List.filter_true] at hsum
    exact hsum

end

theorem hiresByQuarter_spec_sample :
    ((hiresByQuarter hiringDb).map HiresByQuarterRow.total).sum = (hiredIn2021 hiringDb).length ∧
      hiresByQuarter hiringDb = [⟨"A", "J", [("Q1", 2), ("Q2", 1), ("Q3", 0), ("Q4", 0)]⟩] :=
  ⟨(hiresByQuarter_spec hiringDb_consistent).2.2.2.2, by decide +kernel⟩

end HiringService
