import HiringService.CsvRoundTrip
import HiringService.Sequential.Employees
import HiringService.Sequential.Reference

/-!
# Uploads without outages

An upload of departments or jobs parses the file, checks the number of records and ingests them. It
ends as one pass over the records does, except where the fallback inserts more rows than the commit
can close savepoints for: then `RecursionError` reaches the client, and no row is kept.
-/

namespace HiringService

open Effect (Program)

/-- The parsers of departments and jobs are the same. -/
theorem parseReference_eq (t : ReferenceTable) : parseReference t = parseFile referenceOfRow := by
  cases t <;> rfl

/-- The uploads of departments and jobs are the same. -/
theorem upload_eq (t : ReferenceTable) (batchId : BatchId) (file : Bytes) :
    upload t batchId file = uploadReference t (parseReference t) batchId file := by
  cases t <;> rfl

/-- After the parser comes only the check of the number of records. -/
theorem getRecords_eq {α : Type} {parse : Bytes → Except Exn (List α × List String)} {file : Bytes}
    {records : List α} {parseErrors : List String} (hparse : parse file = .ok (records, parseErrors)) :
    getRecords parse file = (validateBatch records).map fun _ => (records, parseErrors) := by
  unfold getRecords
  rw [hparse]
  rfl

/-- A file that is admitted. -/
theorem validateBatch_of_valid {α : Type} {records : List α}
    (h : records ≠ [] ∧ records.length ≤ maxRows) : validateBatch records = .ok () := by
  unfold validateBatch
  rw [if_neg h.1, if_neg (by omega)]

/-- A file that is refused, with a 422. -/
theorem validateBatch_of_not_valid {α : Type} {records : List α}
    (h : ¬ (records ≠ [] ∧ records.length ≤ maxRows)) :
    ∃ detail, validateBatch records = .error (.http 422 detail) := by
  unfold validateBatch
  by_cases hnil : records = []
  · exact ⟨_, if_pos hnil⟩
  · rw [if_neg hnil]
    exact ⟨_, if_pos (by by_contra hshort; exact h ⟨hnil, by omega⟩)⟩

/-- What is admitted has records, and not too many. -/
theorem valid_of_validateBatch {α : Type} {records : List α} (h : validateBatch records = .ok ()) :
    records ≠ [] ∧ records.length ≤ maxRows := by
  by_contra hvalid
  obtain ⟨detail, hrefused⟩ := validateBatch_of_not_valid hvalid
  rw [hrefused] at h
  cases h

/-- An upload that `validate_batch` admits ingests its records and appends the parse errors. -/
theorem calmly_upload {limit : ℕ+} {t : ReferenceTable} {pid : Pid} {batchId : BatchId} {now : ℕ}
    {w : World} {db : Db} {file : Bytes} {records : List ReferenceRecord} {parseErrors : List String}
    (hs : Solo pid now w db [] 0) (hfresh : Key.batch batchId ∉ db.keys)
    (hparse : parseReference t file = .ok (records, parseErrors))
    (hvalid : records ≠ [] ∧ records.length ≤ maxRows) :
    Calmly (· = limit) pid (upload t batchId file) w
      (Ingested limit t pid now batchId db records parseErrors) := by
  have hget : getRecords (parseReference t) file = .ok (records, parseErrors) := by
    rw [getRecords_eq hparse, validateBatch_of_valid hvalid]
    rfl
  rw [upload_eq]
  refine Calmly.bind (calmly_lift_ok hget ?_)
  refine Calmly.bind (Calmly.mono (calmly_execute hs hfresh hvalid.1) ?_)
  rintro _ w₁ (⟨hcan, rfl, hs₁⟩ | ⟨hcan, rfl, hs₁⟩)
  · refine calmly_pure (Or.inl ⟨hcan, ?_, hs₁⟩)
    rw [List.append_nil]
  · exact Or.inr ⟨hcan, rfl, hs₁⟩

/-- An upload that `validate_batch` refuses makes no call. -/
theorem upload_eq_throw {t : ReferenceTable} {batchId : BatchId} {file : Bytes}
    {records : List ReferenceRecord} {parseErrors : List String}
    (hparse : parseReference t file = .ok (records, parseErrors))
    (hvalid : ¬ (records ≠ [] ∧ records.length ≤ maxRows)) :
    ∃ detail, upload t batchId file = .throw (.http 422 detail) := by
  obtain ⟨detail, hrefused⟩ := validateBatch_of_not_valid hvalid
  have hget : getRecords (parseReference t) file = .error (.http 422 detail) := by
    rw [getRecords_eq hparse, hrefused]
    rfl
  refine ⟨detail, ?_⟩
  rw [upload_eq, uploadReference, hget]
  rfl

/-- The upload of a file with the given records and parse errors ended as one pass does. With no
records or more than 1000 it was refused and changed nothing. Otherwise it answered with the number of
records that the pass accepts and with the entries of the rejected records and of the unreadable rows,
so that both add up to the rows of the file, and it committed the accepted rows under one completed
batch, or nothing when there were none. -/
structure UploadedAsOnePass (t : ReferenceTable) (batchId : BatchId) (w : World) (file : Bytes)
    (records : List ReferenceRecord) (parseErrors : List String) (r : Except Exn IngestionResponse)
    (w' : World) : Prop where
  refused : records = [] ∨ maxRows < records.length →
    (∃ detail, r = .error (.http 422 detail)) ∧ w' = w
  ingested : records ≠ [] ∧ records.length ≤ maxRows →
    let pass := (referenceTable t batchId).insertAll w.db records
    let errors := pass.rejected.map ReferenceRecord.entry ++ parseErrors
    r = .ok ⟨pass.accepted.length, errors⟩ ∧
      (∃ rows, readFile file = .ok rows ∧ pass.accepted.length + errors.length = rows.length) ∧
      (pass.accepted = [] → w'.db = w.db) ∧
      (pass.accepted ≠ [] → w'.db = w.db.published t batchId w.clock pass.accepted)

section OnePass

variable {t : ReferenceTable} {pid : Pid} {batchId : BatchId} {w : World} {file : Bytes}
  {records : List ReferenceRecord} {parseErrors : List String} {limit : ℕ+} {sched : ℕ → Choice}

/-- For every database and every departments or jobs file that can be parsed, with a fresh batch id:
an upload ends as one pass does if and only if it is refused, the pass rejects no record, so that the
bulk path goes through, or a commit can close a savepoint for each record that the pass accepts. -/
theorem upload_eq_onePass_iff (hquiet : w.Quiet pid)
    (hfresh : batchId ∉ w.db.batches.map IngestionBatch.id)
    (hparse : parseReference t file = .ok (records, parseErrors))
    (hsched : ∀ n, (sched n).fault = none ∧ (sched n).nested = limit) :
    let pass := (referenceTable t batchId).insertAll w.db records
    (∃ r m w', (upload t batchId file).run (machine pid) sched w =
        some (r, fun n => sched (n + m), w') ∧
      UploadedAsOnePass t batchId w file records parseErrors r w') ↔
    (records = [] ∨ maxRows < records.length) ∨ pass.rejected = [] ∨
      pass.accepted.length ≤ limit := by
  intro pass
  have hkey : Key.batch batchId ∉ w.db.keys := mt (mem_keys_batch w.db).mp hfresh
  by_cases hvalid : records ≠ [] ∧ records.length ≤ maxRows
  · have hadmitted : ¬ (records = [] ∨ maxRows < records.length) := by
      rintro (hnil | hlong)
      · exact hvalid.1 hnil
      · omega
    obtain ⟨r, m, w', hrun, hend⟩ := (calmly_upload hquiet.solo hkey hparse hvalid).run hsched
    rcases hend with ⟨hcan, rfl, hs⟩ | ⟨hcan, rfl, -⟩
    · have hdb : w'.db = _ := hs.committed
      refine iff_of_true ⟨_, m, w', hrun, fun hbad => absurd hbad hadmitted, fun _ =>
        ⟨rfl, ?_, fun h => ?_, fun h => ?_⟩⟩ (Or.inr hcan)
      · -- a row is a record or a parse error, and a record is accepted or rejected
        obtain ⟨rows, hrows, hlength⟩ := parseFile_length (parseReference_eq t ▸ hparse)
        refine ⟨rows, hrows, ?_⟩
        have hcount : pass.accepted.length + pass.rejected.length = records.length :=
          OnePass.Table.length_accepted_add_length_rejected
        show pass.accepted.length + (pass.rejected.map _ ++ parseErrors).length = rows.length
        rw [List.length_append, List.length_map]
        omega
      · rw [hdb, if_pos h]
      · rw [hdb, if_neg h]
    · refine iff_of_false ?_ fun h => h.elim hadmitted hcan
      rintro ⟨r', _, _, hrun', hend⟩
      have hsame : some (Except.error Exn.recursion) = some r' :=
        congrArg (Option.map Prod.fst) (hrun.symm.trans hrun')
      obtain rfl := Option.some.inj hsame
      cases (hend.ingested hvalid).1
  · have hrefused : records = [] ∨ maxRows < records.length := by
      by_contra hadmitted
      rw [not_or] at hadmitted
      exact hvalid ⟨hadmitted.1, by omega⟩
    obtain ⟨detail, hupload⟩ := @upload_eq_throw t batchId file records parseErrors hparse hvalid
    refine iff_of_true ⟨.error (.http 422 detail), 0, w, ?_, fun _ => ⟨⟨detail, rfl⟩, rfl⟩,
      fun h => absurd h hvalid⟩ (Or.inl hrefused)
    rw [hupload]
    rfl

end OnePass

/-- A file of departments: 1 exists, 2 comes twice, and the last row has no name. -/
theorem upload_eq_onePass_iff_sample :
    let w := World.initial sampleDb fun _ => none
    let file : Bytes := [49, 44, 65, 10, 50, 44, 66, 10, 50, 44, 67, 10, 52]
    let records : List ReferenceRecord := [⟨1, "A"⟩, ⟨2, "B"⟩, ⟨2, "C"⟩]
    let pass := (referenceTable .departments 5).insertAll w.db records
    (∃ r m w', (upload .departments 5 file).run (machine 0) (fun _ => Choice.calm) w =
        some (r, fun n => (fun _ => Choice.calm) (n + m), w') ∧
      UploadedAsOnePass .departments 5 w file records ["row 4: invalid"] r w') ↔
    (records = [] ∨ maxRows < records.length) ∨ pass.rejected = [] ∨
      pass.accepted.length ≤ (333 : ℕ+) :=
  upload_eq_onePass_iff ⟨rfl, rfl, rfl⟩ (by decide) rfl fun _ => ⟨rfl, rfl⟩

/-! ### A fallback that is too long -/

/-- A pass rejects none of the records whose ids are new and distinct, if they can be stored. -/
theorem rejected_eq_nil_of_new {t : ReferenceTable} {batchId : BatchId} {db : Db}
    {records : List ReferenceRecord}
    (hnew : ∀ r ∈ records, r.id ∉ (db.reference t).map ReferenceRow.id)
    (hnodup : (records.map ReferenceRecord.id).Nodup)
    (hstorable : ∀ r ∈ records, (r.toRow batchId).storable) :
    ((referenceTable t batchId).insertAll db records).rejected = [] := by
  induction records generalizing db with
  | nil => rfl
  | cons r records ih =>
      obtain ⟨hr, hrecords⟩ := List.forall_mem_cons.mp hnew
      obtain ⟨hstored, hrest⟩ := List.forall_mem_cons.mp hstorable
      obtain ⟨hfirst, hdistinct⟩ := List.nodup_cons.mp hnodup
      refine OnePass.Table.rejected_cons_eq_nil_iff.mpr ⟨⟨hr, hstored⟩, ih ?_ hdistinct hrest⟩
      intro other hother hmem
      -- the table has grown by the first record, whose id is not that of another
      have hgrown : ((referenceTable t batchId).insert db r).reference t =
          db.reference t ++ [r.toRow batchId] := by
        cases t <;> rfl
      rw [hgrown, List.map_append, List.mem_append, List.map_singleton, List.mem_singleton] at hmem
      rcases hmem with hold | hsame
      · exact hrecords other hother hold
      · exact hfirst (List.mem_map.mpr ⟨other, hother, hsame⟩)

/-- `count` departments with consecutive ids. -/
def departmentsFrom (first count : ℕ) : List ReferenceRecord :=
  (List.range' first count).map fun i : ℕ => (⟨i, "D"⟩ : ReferenceRecord)

section LongFiles

variable {first count : ℕ} {r : ReferenceRecord} {batchId : BatchId}

/-- `departmentsFrom first count` has `count` records. -/
theorem length_departmentsFrom : (departmentsFrom first count).length = count := by
  rw [departmentsFrom, List.length_map, List.length_range']

/-- The first record of `departmentsFrom`, and the others. -/
theorem departmentsFrom_succ : departmentsFrom first (count + 1) =
    ⟨first, "D"⟩ :: departmentsFrom (first + 1) count := rfl

/-- The ids of `departmentsFrom` are those from `first` on. -/
theorem mem_departmentsFrom (h : r ∈ departmentsFrom first count) :
    r.name = "D" ∧ (first : ℤ) ≤ r.id ∧ r.id < first + count := by
  obtain ⟨i, hi, rfl⟩ := List.mem_map.mp h
  obtain ⟨hfirst, hlast⟩ := List.mem_range'_1.mp hi
  refine ⟨rfl, ?_, ?_⟩
  · show (first : ℤ) ≤ (i : ℤ)
    omega
  · show (i : ℤ) < first + count
    omega

/-- The CSV file of the departments from 1 on. -/
def departmentsFile (count : ℕ) : Bytes :=
  fileOf ((departmentsFrom 1 count).map ReferenceRecord.fields)

/-- The parser reads the records of `departmentsFrom` from the file. -/
theorem parse_departmentsFile (hcount : count ≤ maxRows) :
    parseReference .departments (departmentsFile count) = .ok (departmentsFrom 1 count, []) := by
  have hwritable : ∀ r ∈ departmentsFrom 1 count, r.Writable := by
    intro r hr
    obtain ⟨hname, hfirst, hlast⟩ := mem_departmentsFrom hr
    rw [maxRows] at hcount
    refine ⟨?_, by rw [hname]; decide⟩
    calc r.id.natAbs < 10 ^ 4 := by omega
      _ ≤ 10 ^ Python.maxStrDigits := Nat.pow_le_pow_right (by decide) (by decide)
  exact parseFile_fileOf (fun r hr => (referenceOfRow_fields (hwritable r hr)).1)
    fun r hr => (referenceOfRow_fields (hwritable r hr)).2

/-- Where only the department 1 exists, a pass over the departments from 1 on rejects it and accepts
the others. -/
theorem pass_departmentsFrom (hcount : count ≤ maxRows) :
    let pass := (referenceTable .departments batchId).insertAll sampleDb (departmentsFrom 1 (count + 1))
    pass.rejected = [⟨(1 : ℕ), "D"⟩] ∧ pass.accepted.length = count := by
  intro pass
  -- department 1 exists, and the others are new
  have hfirst : ¬ (referenceTable .departments batchId).accepts sampleDb ⟨(1 : ℕ), "D"⟩ :=
    fun haccepts => absurd haccepts.1 (by decide)
  have hrejected : ((referenceTable .departments batchId).insertAll sampleDb
      (departmentsFrom 2 count)).rejected = [] := by
    refine rejected_eq_nil_of_new (fun r hr => ?_) ?_ fun r hr => ?_
    · obtain ⟨-, hid, -⟩ := mem_departmentsFrom hr
      show r.id ∉ [(1 : ℤ)]
      rw [List.mem_singleton]
      omega
    · rw [departmentsFrom, List.map_map]
      exact List.Nodup.map (fun i j hij => Int.ofNat.inj hij) List.nodup_range'
    · obtain ⟨hname, hid, hlast⟩ := mem_departmentsFrom hr
      rw [maxRows] at hcount
      refine ⟨?_, ?_⟩
      · show -2147483648 ≤ r.id ∧ r.id ≤ 2147483647
        omega
      · show storableText r.name
        rw [hname]
        decide
  have hpass : pass = _ := (congrArg _ departmentsFrom_succ).trans
    (OnePass.Table.insertAll_cons_of_not_accepts hfirst)
  rw [hpass]
  refine ⟨?_, ?_⟩
  · rw [hrejected]
  · rw [OnePass.Table.accepted_eq_of_rejected_eq_nil hrejected, length_departmentsFrom]

/-- An upload of so many departments raises, and none of them is kept. -/
theorem upload_departmentsFile {limit : ℕ+} (hlimit : limit < count) (hcount : count < maxRows)
    {pid : Pid} {w : World} (hquiet : w.Quiet pid) (hdb : w.db = sampleDb) (hfresh : batchId ∉ [3, 7])
    {sched : ℕ → Choice} (hsched : ∀ n, (sched n).fault = none ∧ (sched n).nested = limit) :
    ∃ m w', (upload .departments batchId (departmentsFile (count + 1))).run (machine pid) sched w =
      some (.error .recursion, fun n => sched (n + m), w') ∧ Halted pid w.clock w' sampleDb := by
  have hvalid : departmentsFrom 1 (count + 1) ≠ [] ∧
      (departmentsFrom 1 (count + 1)).length ≤ maxRows :=
    ⟨by rw [departmentsFrom_succ]; exact List.cons_ne_nil _ _, by
      rw [length_departmentsFrom]
      exact hcount⟩
  have hkey : Key.batch batchId ∉ w.db.keys := by
    rw [hdb, mem_keys_batch]
    exact hfresh
  obtain ⟨r, m, w', hrun, ⟨hcan, -⟩ | ⟨-, rfl, hs⟩⟩ :=
    (calmly_upload hquiet.solo hkey (parse_departmentsFile hcount) hvalid).run hsched
  · rw [hdb] at hcan
    obtain ⟨hrejected, haccepted⟩ := @pass_departmentsFrom count batchId hcount.le
    rcases hcan with hnone | hshort
    · rw [hrejected] at hnone
      cases hnone
    · rw [haccepted] at hshort
      omega
  · rw [hdb] at hs
    exact ⟨m, w', hrun, hs⟩

end LongFiles

/-- Where the department 1 exists, the fallback of a file with the departments 1 to 340 inserts 339
rows. The commit raises `RecursionError`, and none of them is kept. -/
theorem upload_loses_long_fallback :
    let w := World.initial sampleDb fun _ => none
    let run := (upload .departments 5 (departmentsFile 340)).run (machine 0) (fun _ => Choice.calm) w
    parseReference .departments (departmentsFile 340) = .ok (departmentsFrom 1 340, []) ∧
      (∃ left w', run = some (.error .recursion, left, w') ∧ w'.db = w.db) ∧
      ¬ ∃ r left w', run = some (r, left, w') ∧
        UploadedAsOnePass .departments 5 w (departmentsFile 340) (departmentsFrom 1 340) [] r w' := by
  intro w run
  have hlimit : ((333 : ℕ+) : ℕ) < 339 := by decide
  obtain ⟨m, w', hrun, hs⟩ := @upload_departmentsFile 339 5 333 hlimit (by decide) 0 w
    ⟨rfl, rfl, rfl⟩ rfl (by decide) (fun _ => Choice.calm) fun _ => ⟨rfl, rfl⟩
  refine ⟨parse_departmentsFile (by decide), ⟨_, w', hrun, hs.committed⟩, ?_⟩
  rintro ⟨r', _, _, hrun', hend⟩
  have hsame : some (Except.error Exn.recursion) = some r' :=
    congrArg (Option.map Prod.fst) (hrun.symm.trans hrun')
  obtain rfl := Option.some.inj hsame
  have hvalid : departmentsFrom 1 (339 + 1) ≠ [] ∧ (departmentsFrom 1 (339 + 1)).length ≤ maxRows :=
    ⟨by rw [departmentsFrom_succ]; exact List.cons_ne_nil _ _, by
      rw [length_departmentsFrom]
      decide⟩
  cases (hend.ingested hvalid).1

end HiringService
