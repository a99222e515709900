import HiringService.Contracts.Outage
import HiringService.Sequential.Worker

/-!
# Chunks

`iter_chunks` takes any integer as a size. It refuses 0, and with a negative size Python's `range`
is empty: nothing is raised and there are no chunks, so the chunk loop of the worker does not run
and the batch is completed without its records.
-/

namespace HiringService

open Effect (Program)

/-- The chunks split the items: none is empty, all have `size` items, of which the last may have
fewer, and one after the other they are the items in order. -/
structure Splits {α : Type} (items : List α) (size : ℤ) (chunks : List (List α)) : Prop where
  nonempty : ∀ chunk ∈ chunks, chunk ≠ []
  length_le : ∀ chunk ∈ chunks, (chunk.length : ℤ) ≤ size
  full : ∀ chunk ∈ chunks.dropLast, (chunk.length : ℤ) = size
  flatten : chunks.flatten = items

/-- `iter_chunks` drops nothing: it raises, or it splits the items. -/
def ChunksAll {α : Type} (items : List α) (size : ℤ) : Prop :=
  (∃ e, iterChunks items size = .error e) ∨
    ∃ chunks, iterChunks items size = .ok chunks ∧ Splits items size chunks

section Slices

variable {α : Type} {n i : ℕ}

/-- Rounding up: an index is below the number of chunks if and only if its chunk starts before the
end. -/
theorem lt_ceil_div_iff (length : ℕ) : i < (length + n) / (n + 1) ↔ i * (n + 1) < length := by
  rw [Nat.lt_iff_add_one_le, Nat.le_div_iff_mul_le (Nat.add_one_pos n), Nat.add_one_mul i]
  omega

theorem length_slice (items : List α) (n i : ℕ) :
    ((items.drop (i * (n + 1))).take (n + 1)).length =
      min (n + 1) (items.length - i * (n + 1)) := by
  rw [List.length_take, List.length_drop]

/-- With a positive size the chunks split the items. -/
theorem splits_slices (items : List α) (n : ℕ) :
    Splits items (n + 1 : ℕ) ((List.range ((items.length + n) / (n + 1))).map fun i =>
      (items.drop (i * (n + 1))).take (n + 1)) where
  nonempty chunk hchunk := by
    obtain ⟨i, hi, rfl⟩ := List.mem_map.mp hchunk
    have hstart := (lt_ceil_div_iff items.length).mp (List.mem_range.mp hi)
    have hlength := length_slice items n i
    refine List.ne_nil_of_length_pos ?_
    omega
  length_le chunk hchunk := by
    obtain ⟨i, -, rfl⟩ := List.mem_map.mp hchunk
    exact Int.ofNat_le.mpr (List.length_take_le _ _)
  full chunk hchunk := by
    rcases hcount : (items.length + n) / (n + 1) with _ | count
    · rw [hcount] at hchunk
      cases hchunk
    · rw [hcount, List.range_succ, List.map_append, List.map_singleton,
        List.dropLast_concat] at hchunk
      obtain ⟨i, hi, rfl⟩ := List.mem_map.mp hchunk
      -- a chunk that is not the last one ends before another one starts
      have hnext : i + 1 < (items.length + n) / (n + 1) := by
        have := List.mem_range.mp hi
        omega
      have hend := (lt_ceil_div_iff items.length).mp hnext
      rw [Nat.add_one_mul] at hend
      have hlength := length_slice items n i
      omega
  flatten := by
    have hpos : (0 : ℤ) < (n + 1 : ℕ) := by omega
    obtain ⟨chunks, hchunks, hflatten⟩ := iterChunks_of_pos items hpos
    cases hchunks
    exact hflatten

end Slices

/-- Chunking drops nothing exactly if the size is not negative, or if there is nothing to drop. -/
theorem chunksAll_iff {α : Type} (items : List α) (size : ℤ) :
    ChunksAll items size ↔ 0 ≤ size ∨ items = [] := by
  rcases size with (_ | n) | n
  · exact iff_of_true (Or.inl ⟨_, rfl⟩) (Or.inl (by simp))
  · exact iff_of_true (Or.inr ⟨_, rfl, splits_slices items n⟩) (Or.inl (Int.natCast_nonneg _))
  · have hnegative : ¬ 0 ≤ Int.negSucc n := by omega
    constructor
    · rintro (⟨e, he⟩ | ⟨chunks, hchunks, hsplits⟩)
      · cases he
      · cases hchunks
        exact Or.inr hsplits.flatten.symm
    · intro h
      rw [h.resolve_left hnegative]
      exact Or.inr ⟨[], rfl, by simp, by simp, by simp, rfl⟩

/-! ## The chunk loop of the worker -/

/-- The worker gets as far as completing the batch. -/
def Finalizes {pid : Pid} (b : BatchId) (log : List (Call pid)) : Prop :=
  ∃ x ∈ log, ∃ errors, x.op = .statement (.updateStatus b .completed errors)

/-- The worker has read a file with the records `records`, before anything else. -/
def HasRead {pid : Pid} (cfg : Settings) (b : BatchId) (records : List EmployeeRecord)
    (log : List (Call pid)) : Prop :=
  ∃ c w file w' rest errors,
    log = ⟨.streamFile (employeesKey cfg b), c, w, .ok file, w'⟩ :: rest ∧
      parseEmployees file.flatten = .ok (records, errors)

/-- The insert of a chunk. -/
def chunkInsert (b : BatchId) (chunk : List EmployeeRecord) : Op :=
  .statement (.insertEmployees (chunk.map (EmployeeRecord.values b)))

/-- No record is skipped: among the calls there are inserts whose records are, one insert after the
other, all the records. -/
def SkipsNone {pid : Pid} (b : BatchId) (records : List EmployeeRecord) (log : List (Call pid)) :
    Prop :=
  ∃ chunks : List (List EmployeeRecord),
    (chunks.map (chunkInsert b)).Sublist (log.map (·.op)) ∧ chunks.flatten = records

/-- Neither inserts employees nor completes the batch. -/
def Op.Idle (b : BatchId) (op : Op) : Prop :=
  (∀ chunk, op ≠ chunkInsert b chunk) ∧
    ∀ errors, op ≠ .statement (.updateStatus b .completed errors)

section Worker

variable {pid : Pid} {b : BatchId} {cfg : Settings} {w w' : World} {log : List (Call pid)}

theorem HasRead.append {records : List EmployeeRecord} (h : HasRead cfg b records log)
    (log' : List (Call pid)) : HasRead cfg b records (log ++ log') := by
  obtain ⟨c, w, file, w', rest, errors, rfl, hparse⟩ := h
  exact ⟨c, w, file, w', rest ++ log', errors, rfl, hparse⟩

/-- Whatever becomes of a chunk, its bulk insert is the first call. -/
theorem writeEmployees_inv {records : List EmployeeRecord} {out : Except Exn (List String)}
    (h : (writeEmployees b records).Traces (machine pid) w log out w') :
    ∃ x rest, log = x :: rest ∧ x.op = chunkInsert b records := by
  obtain ⟨c, r, w₁, rest, -, rfl, -⟩ := Program.Traces.call_inv (i := chunkInsert b records) h
  exact ⟨_, rest, rfl, rfl⟩

/-- A chunk loop that ends has made the insert of every chunk. -/
theorem writeChunks_inv {chunks : List (List EmployeeRecord)} {errors errors' : List String}
    (h : (writeChunks b errors chunks).Traces (machine pid) w log (.ok errors') w') :
    (chunks.map (chunkInsert b)).Sublist (log.map (·.op)) := by
  induction chunks generalizing errors w log with
  | nil => exact List.nil_sublist _
  | cons chunk chunks ih =>
      rw [writeChunks, List.foldlM_cons] at h
      obtain ⟨next, log₁, log₂, w₁, rfl, hchunk, hrest⟩ | ⟨e, he, -⟩ := h.bind_inv
      · obtain ⟨out, hwrite, -⟩ := hchunk.map_inv
        obtain ⟨x, rest, rfl, hx⟩ := writeEmployees_inv hwrite
        rw [List.map_append, List.map_cons, List.map_cons, hx, List.cons_append]
        exact ((ih hrest).trans (List.sublist_append_right _ _)).cons_cons _
      · cases he

/-- The course of the part of the worker that writes: a file is read and parsed, and its records are
written in chunks. -/
theorem ingestFile_inv {errors : List String}
    (h : (ingestFile b cfg).Traces (machine pid) w log (.ok errors) w') :
    ∃ records parseErrors chunks, ∃ x : Call pid, ∃ rest w₁,
      log = x :: rest ∧ HasRead cfg b records log ∧ x.op = .streamFile (employeesKey cfg b) ∧
      iterChunks records cfg.employeeChunkSize = .ok chunks ∧
      (writeChunks b parseErrors chunks).Traces (machine pid) w₁ rest (.ok errors) w' := by
  obtain ⟨c, r, w₁, rest, -, rfl, hread⟩ :=
    Program.Traces.call_inv (i := Op.streamFile (employeesKey cfg b)) h
  rcases r with e | file
  · cases hread
  obtain ⟨⟨records, parseErrors⟩, hparse, hwrite⟩ | ⟨e, -, he⟩ :=
    Program.Traces.lift_bind_inv (x := parseEmployees file.flatten) hread
  · obtain ⟨chunks, hchunks, hloop⟩ | ⟨e, -, he⟩ := Program.Traces.lift_bind_inv hwrite
    · exact ⟨records, parseErrors, chunks, _, rest, w₁, rfl,
        ⟨c, w, file, w₁, rest, parseErrors, rfl, hparse⟩, rfl, hchunks, hloop⟩
    · cases he
  · cases he

theorem Op.OfFile.ne_completed {op : Op} (h : op.OfFile b) (errors : List String) :
    op ≠ .statement (.updateStatus b .completed errors) := by
  rintro rfl
  exact h

/-- The end of a batch inserts no employees. -/
theorem uses_finalizeBatch (errors : List String) :
    (finalizeBatch b errors).Uses fun op => ∀ chunk, op ≠ chunkInsert b chunk := by
  refine Program.Uses.bind (Program.Uses.bind ?_ fun _ => ?_) fun _ => ?_
  · exact Program.uses_request fun _ => by simp [chunkInsert]
  · exact Program.uses_request fun _ => by simp [chunkInsert]
  · exact Program.uses_request fun _ => by simp [chunkInsert]

/-- A worker that gets as far as completing the batch has written the chunks before, and after that
it only completes it or marks it as failed. -/
theorem process_inv {out : Except Exn Unit} (h : (process b cfg).Traces (machine pid) w log out w')
    (hfinal : Finalizes b log) :
    ∃ errors writing rest w₁, log = writing ++ rest ∧
      (ingestFile b cfg).Traces (machine pid) w writing (.ok errors) w₁ ∧
      ∀ x ∈ rest, ∀ chunk, x.op ≠ chunkInsert b chunk := by
  obtain ⟨errors, writing, rest, w₁, rfl, hwriting, hrest⟩ | ⟨e, -, hraised⟩ := h.bind_inv
  · exact ⟨errors, writing, rest, w₁, rfl, hwriting, hrest.uses (uses_finalizeBatch errors)⟩
  · obtain ⟨x, hx, errors, hop⟩ := hfinal
    exact absurd hop ((hraised.uses uses_ingestFile x hx).ne_completed errors)

/-- Marking a batch as failed neither inserts employees nor completes the batch. -/
theorem idle_markBatchFailed : (markBatchFailed b).Uses (Op.Idle b) := by
  refine Program.Uses.tryExcept ?_ fun _ => Program.uses_request ⟨?_, ?_⟩
  · refine Program.Uses.bind ?_ fun _ => Program.Uses.bind ?_ fun _ => ?_
    · exact Program.uses_request ⟨by simp [chunkInsert], by simp⟩
    · exact Program.uses_request ⟨by simp [chunkInsert], by simp⟩
    · exact Program.uses_request ⟨by simp [chunkInsert], by simp⟩
  · simp [chunkInsert]
  · simp

theorem streamAndProcess_inv {out : Except Exn Unit}
    (h : (streamAndProcess b cfg).Traces (machine pid) w log out w') (hfinal : Finalizes b log) :
    ∃ errors writing rest w₁, log = writing ++ rest ∧
      (ingestFile b cfg).Traces (machine pid) w writing (.ok errors) w₁ ∧
      ∀ x ∈ rest, ∀ chunk, x.op ≠ chunkInsert b chunk := by
  obtain ⟨_, -, hprocess⟩ | ⟨e, log₁, log₂, w₁, rfl, hprocess, hhandler⟩ := h.tryExcept_inv
  · exact process_inv hprocess hfinal
  · have hidle := hhandler.uses (idle_markBatchFailed.bind fun _ => trivial)
    have hfinal₁ : Finalizes b log₁ := by
      obtain ⟨x, hx, errors, hop⟩ := hfinal
      rcases List.mem_append.mp hx with hx | hx
      · exact ⟨x, hx, errors, hop⟩
      · exact absurd hop ((hidle x hx).2 errors)
    obtain ⟨errors, writing, rest, w₂, rfl, hwriting, hrest⟩ := process_inv hprocess hfinal₁
    refine ⟨errors, writing, rest ++ log₂, w₂, List.append_assoc _ _ _, hwriting, fun x hx => ?_⟩
    rcases List.mem_append.mp hx with hx | hx
    · exact hrest x hx
    · exact (hidle x hx).1

/-- Without inserts everything is skipped. -/
theorem eq_nil_of_skipsNone {records : List EmployeeRecord} (h : SkipsNone b records log)
    (hlog : ∀ x ∈ log, ∀ chunk, x.op ≠ chunkInsert b chunk) : records = [] := by
  obtain ⟨chunks, hsublist, rfl⟩ := h
  rcases chunks with _ | ⟨chunk, chunks⟩
  · rfl
  · obtain ⟨x, hx, hop⟩ := List.mem_map.mp (hsublist.subset List.mem_cons_self)
    exact absurd hop (hlog x hx chunk)

/-- A run that gets as far as completing the batch has inserted every record of the file, exactly if
the chunk size is not negative or the file has no records. -/
theorem skipsNone_iff {out : Except Exn Unit}
    (h : (streamAndProcess b cfg).Traces (machine pid) w log out w') (hfinal : Finalizes b log) :
    ∃ records, HasRead cfg b records log ∧
      (SkipsNone b records log ↔ 0 ≤ cfg.employeeChunkSize ∨ records = []) := by
  obtain ⟨errors, writing, rest, w₁, rfl, hwriting, hrest⟩ := streamAndProcess_inv h hfinal
  obtain ⟨records, parseErrors, chunks, x, written, w₂, rfl, hread, hx, hchunks, hwritten⟩ :=
    ingestFile_inv hwriting
  refine ⟨records, hread.append rest, ?_⟩
  constructor
  · intro hnone
    rcases hsize : cfg.employeeChunkSize with n | n
    · exact Or.inl (Int.natCast_nonneg n)
    · -- no chunks, so the download is the only call before the end of the batch
      rw [hsize] at hchunks
      cases hchunks
      cases hwritten
      refine Or.inr (eq_nil_of_skipsNone hnone fun y hy => ?_)
      rcases List.mem_cons.mp hy with rfl | hy
      · simp [hx, chunkInsert]
      · exact hrest y hy
  · intro hcondition
    obtain ⟨e, he⟩ | ⟨chunks', hchunks', hsplits⟩ := (chunksAll_iff records _).mpr hcondition
    · cases he.symm.trans hchunks
    · cases hchunks'.symm.trans hchunks
      refine ⟨chunks, ?_, hsplits.flatten⟩
      rw [List.map_append, List.map_cons]
      exact ((writeChunks_inv hwritten).cons _).trans (List.sublist_append_left _ _)

end Worker

/-- `iter_chunks` drops nothing, and the worker completes no batch of which it has skipped records,
exactly if the size is not negative or there are no records. -/
theorem chunking_drops_nothing_iff (size : ℤ) :
    (∀ {α : Type} (items : List α), ChunksAll items size ↔ 0 ≤ size ∨ items = []) ∧
    ∀ {pid : Pid} {b : BatchId} {cfg : Settings} {w w' : World} {log : List (Call pid)}
      {out : Except Exn Unit}, cfg.employeeChunkSize = size →
      (streamAndProcess b cfg).Traces (machine pid) w log out w' → Finalizes b log →
      ∃ records, HasRead cfg b records log ∧
        (SkipsNone b records log ↔ 0 ≤ size ∨ records = []) := by
  refine ⟨fun items => chunksAll_iff items size, ?_⟩
  rintro pid b cfg w w' log out rfl h hfinal
  exact skipsNone_iff h hfinal

theorem chunking_drops_nothing_iff_sample :
    ChunksAll [1, 2, 3] 2 ∧
    ∃ (w' : World) (log : List (Call 0)) (records : List EmployeeRecord),
      (streamAndProcess 7 sampleSettings).Traces (machine 0)
        (World.initial sampleDb fun _ => some (sampleFile [65])) log (.ok ()) w' ∧
      HasRead sampleSettings 7 records log ∧ SkipsNone 7 records log := by
  have hreplay : ∃ log w', (streamAndProcess 7 sampleSettings).replay (machine 0)
      (List.replicate 6 Choice.calm) (World.initial sampleDb fun _ => some (sampleFile [65])) =
      some (log, .ok (), w') ∧ Op.statement (.updateStatus 7 .completed []) ∈ log.map (·.op) :=
    ⟨_, _, rfl, by decide⟩
  obtain ⟨log, w', hlog, hfinal⟩ := hreplay
  obtain ⟨x, hx, hop⟩ := List.mem_map.mp hfinal
  have htraces := (Program.traces_of_replay hlog).1
  obtain ⟨records, hread, hnone⟩ :=
    (chunking_drops_nothing_iff 2).2 (show sampleSettings.employeeChunkSize = 2 from rfl) htraces
      ⟨x, hx, [], hop⟩
  exact ⟨((chunking_drops_nothing_iff 2).1 _).mpr (Or.inl (by decide)), w', log, records, htraces,
    hread, hnone.mpr (Or.inl (by decide))⟩

/-- With `EMPLOYEE_CHUNK_SIZE` set to -1, a list of one item has no chunks, and the worker completes
a batch without its employee. -/
theorem negative_size_skips_records :
    let cfg : Settings := ⟨"hiring", -1, 600⟩
    let records : List EmployeeRecord := [⟨1, "A", ⟨1609459200000000, none⟩, 1, 1⟩]
    ¬ ChunksAll [1] (-1) ∧
    ∃ (w' : World) (log : List (Call 0)),
      (streamAndProcess 7 cfg).Traces (machine 0)
        (World.initial sampleDb fun _ => some (sampleFile [65])) log (.ok ()) w' ∧
      HasRead cfg 7 records log ∧ ¬ SkipsNone 7 records log ∧
      w'.db.batch 7 = some ⟨7, .completed, some [], 0⟩ ∧ w'.db.employees = [] := by
  intro cfg records
  refine ⟨fun h => absurd ((chunksAll_iff [1] (-1)).mp h) (by decide), ?_⟩
  have hreplay : ∃ log w', (streamAndProcess 7 cfg).replay (machine 0)
      (List.replicate 4 Choice.calm) (World.initial sampleDb fun _ => some (sampleFile [65])) =
      some (log, .ok (), w') ∧ HasRead cfg 7 records log ∧
      log.map (·.op) = [.streamFile (employeesKey cfg 7),
        .statement (.updateStatus 7 .completed []), .commit, .cacheDelete metricsCacheKeys] ∧
      w'.db.batch 7 = some ⟨7, .completed, some [], 0⟩ ∧ w'.db.employees = [] :=
    ⟨_, _, rfl, ⟨_, _, _, _, _, _, rfl, rfl⟩, rfl, rfl, rfl⟩
  obtain ⟨log, w', hlog, hread, hops, hbatch, hemployees⟩ := hreplay
  refine ⟨w', log, (Program.traces_of_replay hlog).1, hread, fun hnone => ?_, hbatch, hemployees⟩
  have hnil : records = [] := eq_nil_of_skipsNone hnone fun x hx chunk => by
    have hmem : x.op ∈ log.map (·.op) := List.mem_map_of_mem hx
    rw [hops] at hmem
    simp only [List.mem_cons, List.not_mem_nil, or_false] at hmem
    rcases hmem with hop | hop | hop | hop <;> simp [hop, chunkInsert]
  exact absurd hnil (List.cons_ne_nil _ _)

end HiringService
