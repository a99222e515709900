import HiringService.Metrics.Joins

/-!
# What departments-above-mean returns

In a consistent database `dept_hires` has a row for every department with hires in 2021, and the
query returns those whose count exceeds the mean of these rows. Departments without hires do not
enter the mean, so some department with hires is never listed, and none is exactly when all have as
many.
-/

namespace HiringService

/-- The number of employees of the department that were hired in 2021. -/
def Db.hiresOf (db : Db) (d : ReferenceRow) : ℕ :=
  ((hiredIn2021 db).filter fun e => e.departmentId = d.id).length

/-- The departments with a hire in 2021. -/
def Db.hiringDepartments (db : Db) : List ReferenceRow :=
  db.departments.filter fun d => 0 < db.hiresOf d

/-- The row of `dept_hires` for a department. -/
def Db.hiresRow (db : Db) (d : ReferenceRow) : DepartmentHires := ⟨d.id, d.name, db.hiresOf d⟩

section

variable {db : Db}

theorem mem_hiringDepartments {d : ReferenceRow} :
    d ∈ db.hiringDepartments ↔ d ∈ db.departments ∧ 0 < db.hiresOf d := by
  simp [Db.hiringDepartments]

theorem hiresOf_pos_iff {d : ReferenceRow} :
    0 < db.hiresOf d ↔ ∃ e ∈ hiredIn2021 db, e.departmentId = d.id := by
  rw [Db.hiresOf, List.length_pos_iff_exists_mem]
  simp [List.mem_filter]

/-! ## The groups -/

/-- The group of an employee in `dept_hires`. -/
def Db.departmentGroup (db : Db) (e : EmployeeRow) : ℤ × String :=
  (e.departmentId, (db.lookup .departments e.departmentId).name)

/-- An employee belongs to the group of a department when it refers to the department. -/
theorem departmentGroup_eq_iff (hkeys : db.keys.Nodup) {d : ReferenceRow} (hd : d ∈ db.departments)
    (e : EmployeeRow) : db.departmentGroup e = (d.id, d.name) ↔ e.departmentId = d.id := by
  constructor
  · intro h
    exact congrArg Prod.fst h
  · intro h
    rw [Db.departmentGroup, h, lookup_eq_of_mem (t := .departments) hkeys hd]

theorem deptHires_eq (h : db.Consistent) : deptHires db =
    ((hiredIn2021 db).map db.departmentGroup).dedup.map fun g =>
      ⟨g.1, g.2, ((hiredIn2021 db).filter fun e => db.departmentGroup e = g).length⟩ := by
  rw [deptHires, joinDepartments_eq h]
  refine List.map_congr_left fun g _ => ?_
  rw [show ((hiredIn2021 db).map fun e =>
    (e.departmentId, (db.lookup .departments e.departmentId).name)).count g = _ from
      Relational.count_map_eq_length db.departmentGroup (hiredIn2021 db) g]

/-- The groups are the departments with hires. -/
theorem departmentGroups_perm (h : db.Consistent) :
    ((hiredIn2021 db).map db.departmentGroup).dedup.Perm
      (db.hiringDepartments.map fun d => (d.id, d.name)) := by
  have hnodup : (db.hiringDepartments.map fun d => (d.id, d.name)).Nodup := by
    refine List.Nodup.of_map Prod.fst ?_
    rw [List.map_map]
    exact (reference_ids_nodup h.keys .departments).sublist (List.filter_sublist.map _)
  refine (List.perm_ext_iff_of_nodup (List.nodup_dedup _) hnodup).mpr fun g => ?_
  rw [List.mem_dedup, List.mem_map, List.mem_map]
  constructor
  · rintro ⟨e, he, rfl⟩
    obtain ⟨hmem, hid⟩ := h.department he
    refine ⟨db.lookup .departments e.departmentId, mem_hiringDepartments.mpr ⟨hmem, ?_⟩, ?_⟩
    · exact hiresOf_pos_iff.mpr ⟨e, he, hid.symm⟩
    · rw [Db.departmentGroup, hid]
  · rintro ⟨d, hd, rfl⟩
    obtain ⟨hmem, hpos⟩ := mem_hiringDepartments.mp hd
    obtain ⟨e, he, hid⟩ := hiresOf_pos_iff.mp hpos
    exact ⟨e, he, (departmentGroup_eq_iff h.keys hmem e).mpr hid⟩

/-- `dept_hires` has one row for every department with hires, with their number. -/
theorem deptHires_perm (h : db.Consistent) :
    (deptHires db).Perm (db.hiringDepartments.map db.hiresRow) := by
  rw [deptHires_eq h]
  refine ((departmentGroups_perm h).map _).trans (List.Perm.of_eq ?_)
  rw [List.map_map]
  refine List.map_congr_left fun d hd => ?_
  have hgroup : ((hiredIn2021 db).filter fun e => db.departmentGroup e = (d.id, d.name)) =
      (hiredIn2021 db).filter fun e => e.departmentId = d.id :=
    List.filter_congr fun e _ => decide_eq_decide.mpr
      (departmentGroup_eq_iff h.keys (mem_hiringDepartments.mp hd).1 e)
  rw [Function.comp_apply, hgroup]
  rfl

/-- Every hire is counted in one row. -/
theorem sum_hiresOf (h : db.Consistent) :
    (db.hiringDepartments.map db.hiresOf).sum = (hiredIn2021 db).length := by
  have hperm := (deptHires_perm h).map DepartmentHires.hired
  rw [List.map_map, deptHires_eq h, List.map_map] at hperm
  exact hperm.sum_eq.symm.trans (Relational.sum_groups db.departmentGroup (hiredIn2021 db))

/-! ## The result -/

/-- Comparing with the mean of `dept_hires` without dividing. -/
theorem meanHires_lt_iff (h : db.Consistent) {r : DepartmentHires} (hr : r ∈ deptHires db) :
    meanHires (deptHires db) < (r.hired : ℚ) ↔
      (hiredIn2021 db).length < r.hired * db.hiringDepartments.length := by
  have hperm := (deptHires_perm h).map DepartmentHires.hired
  rw [List.map_map] at hperm
  have hne : (deptHires db).map DepartmentHires.hired ≠ [] :=
    List.ne_nil_of_mem (List.mem_map.mpr ⟨r, hr, rfl⟩)
  have hmean := Relational.mean_lt_iff hne r.hired
  rw [hperm.sum_eq, hperm.length_eq, List.length_map] at hmean
  rw [show ((db.hiringDepartments.map (DepartmentHires.hired ∘ db.hiresRow)).sum) =
    (hiredIn2021 db).length from sum_hiresOf h] at hmean
  rw [← hmean, meanHires, hperm.sum_eq, (deptHires_perm h).length_eq, List.length_map]
  rw [show ((db.hiringDepartments.map (DepartmentHires.hired ∘ db.hiresRow)).sum) =
    (hiredIn2021 db).length from sum_hiresOf h]

/-- The query returns the departments that are above the mean. -/
theorem departmentsAboveMean_perm (h : db.Consistent) : (departmentsAboveMean db).Perm
    ((db.departments.filter fun d => 0 < db.hiresOf d ∧
      (hiredIn2021 db).length < db.hiresOf d * db.hiringDepartments.length).map db.hiresRow) := by
  refine (List.perm_insertionSort _ _).trans ?_
  have hfilter : ((deptHires db).filter fun r => meanHires (deptHires db) < (r.hired : ℚ)) =
      (deptHires db).filter fun r =>
        (hiredIn2021 db).length < r.hired * db.hiringDepartments.length :=
    List.filter_congr fun r hr => decide_eq_decide.mpr (meanHires_lt_iff h hr)
  rw [hfilter]
  refine ((deptHires_perm h).filter _).trans (List.Perm.of_eq ?_)
  generalize db.hiringDepartments.length = n
  rw [List.filter_map, Db.hiringDepartments, List.filter_filter]
  refine congrArg (List.map db.hiresRow) (List.filter_congr fun d _ => ?_)
  rw [Bool.eq_iff_iff, Bool.and_eq_true]
  constructor
  · rintro ⟨habove, hpos⟩
    exact decide_eq_true ⟨of_decide_eq_true hpos, of_decide_eq_true habove⟩
  · intro hboth
    obtain ⟨hpos, habove⟩ := of_decide_eq_true hboth
    exact ⟨decide_eq_true habove, decide_eq_true hpos⟩

theorem mem_departmentsAboveMean (h : db.Consistent) {r : DepartmentHires} :
    r ∈ departmentsAboveMean db ↔ ∃ d ∈ db.hiringDepartments, r = db.hiresRow d ∧
      (hiredIn2021 db).length < db.hiresOf d * db.hiringDepartments.length := by
  rw [(departmentsAboveMean_perm h).mem_iff, List.mem_map]
  constructor
  · rintro ⟨d, hd, rfl⟩
    obtain ⟨hmem, habove⟩ := List.mem_filter.mp hd
    obtain ⟨hpos, habove⟩ := of_decide_eq_true habove
    exact ⟨d, mem_hiringDepartments.mpr ⟨hmem, hpos⟩, rfl, habove⟩
  · rintro ⟨d, hd, rfl, habove⟩
    obtain ⟨hmem, hpos⟩ := mem_hiringDepartments.mp hd
    exact ⟨d, List.mem_filter.mpr ⟨hmem, decide_eq_true ⟨hpos, habove⟩⟩, rfl⟩

/-- Nothing is above the mean exactly when all the counts are equal. -/
theorem departmentsAboveMean_eq_nil_iff (h : db.Consistent) : departmentsAboveMean db = [] ↔
    ∀ d ∈ db.hiringDepartments, ∀ d' ∈ db.hiringDepartments, db.hiresOf d = db.hiresOf d' := by
  have hnone := @Relational.none_above_mean_iff (db.hiringDepartments.map db.hiresOf)
  rw [List.length_map, sum_hiresOf h] at hnone
  simp only [List.forall_mem_map] at hnone
  rw [← hnone, List.eq_nil_iff_forall_not_mem]
  constructor
  · intro hnil d hd
    by_contra habove
    exact hnil _ ((mem_departmentsAboveMean h).mpr ⟨d, hd, rfl, Nat.lt_of_not_le habove⟩)
  · intro hle r hr
    obtain ⟨d, hd, -, habove⟩ := (mem_departmentsAboveMean h).mp hr
    exact absurd (hle d hd) (Nat.not_le.mpr habove)

/-- Some department with hires is not above the mean, if there is one at all. -/
theorem exists_department_not_above (h : db.Consistent) (hne : db.hiringDepartments ≠ []) :
    ∃ d ∈ db.hiringDepartments, ∀ r ∈ departmentsAboveMean db, r.id ≠ d.id := by
  have hcounts : db.hiringDepartments.map db.hiresOf ≠ [] := by simpa using hne
  obtain ⟨n, hn, hle⟩ := Relational.exists_not_above_mean hcounts
  rw [List.length_map, sum_hiresOf h] at hle
  obtain ⟨d, hd, rfl⟩ := List.mem_map.mp hn
  refine ⟨d, hd, fun r hr hid => ?_⟩
  obtain ⟨d', hd', rfl, habove⟩ := (mem_departmentsAboveMean h).mp hr
  have heq : d' = d := List.inj_on_of_nodup_map (reference_ids_nodup h.keys .departments)
    (mem_hiringDepartments.mp hd').1 (mem_hiringDepartments.mp hd).1 hid
  rw [heq] at habove
  omega

/-- The query returns, once each and in non-increasing order of their counts, the departments with
hires whose count exceeds the mean over these departments. So it returns nothing exactly when all of
them have the same count, and there is always one of them that it does not return. -/
theorem departmentsAboveMean_spec (h : db.Consistent) :
    (departmentsAboveMean db).Perm
        ((db.departments.filter fun d => 0 < db.hiresOf d ∧
          (hiredIn2021 db).length < db.hiresOf d * db.hiringDepartments.length).map db.hiresRow) ∧
      ((departmentsAboveMean db).map DepartmentHires.id).Nodup ∧
      (departmentsAboveMean db).Pairwise (fun r r' => r'.hired ≤ r.hired) ∧
      (departmentsAboveMean db = [] ↔
        ∀ d ∈ db.hiringDepartments, ∀ d' ∈ db.hiringDepartments, db.hiresOf d = db.hiresOf d') ∧
      (db.hiringDepartments ≠ [] →
        ∃ d ∈ db.hiringDepartments, ∀ r ∈ departmentsAboveMean db, r.id ≠ d.id) := by
  refine ⟨departmentsAboveMean_perm h, ?_, ?_, departmentsAboveMean_eq_nil_iff h,
    exists_department_not_above h⟩
  · have hids := ((departmentsAboveMean_perm h).map DepartmentHires.id).nodup_iff
    rw [hids, List.map_map]
    exact (reference_ids_nodup h.keys .departments).sublist (List.filter_sublist.map _)
  · have hsorted := List.pairwise_insertionSort
      (fun a b : DepartmentHires => b.hired ≤ a.hired) ((deptHires db).filter fun r =>
        meanHires (deptHires db) < (r.hired : ℚ))
    exact hsorted

end

theorem departmentsAboveMean_spec_sample :
    (departmentsAboveMean hiringDb).Perm
        ((hiringDb.departments.filter fun d => 0 < hiringDb.hiresOf d ∧
          (hiredIn2021 hiringDb).length <
            hiringDb.hiresOf d * hiringDb.hiringDepartments.length).map hiringDb.hiresRow) ∧
      hiringDb.departments.map hiringDb.hiresOf = [2, 1] ∧
      hiringDb.hiringDepartments.length = 2 :=
  ⟨(departmentsAboveMean_spec hiringDb_consistent).1, by decide +kernel, by decide +kernel⟩

end HiringService
