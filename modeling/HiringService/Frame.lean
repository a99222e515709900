import HiringService.Insertion

/-!
# What a call can do

Inversion lemmas for `exec`: for each call, how the world may differ afterwards, whatever the
environment has chosen. Invariants and contracts are proved from these lemmas and never unfold
`exec`.
-/

namespace HiringService

/-- Only the session of `pid` has changed, and nothing has been committed. -/
structure Local (pid : Pid) (w w' : World) : Prop where
  db : w'.db = w.db
  own : ∀ q ≠ pid, w'.server.own q = w.server.own q
  sessions : ∀ q ≠ pid, w'.server.sessions q = w.server.sessions q
  slot : ∀ q ≠ pid, w'.slot q = w.slot q
  storage : w'.storage = w.storage
  cache : w'.cache = w.cache
  clock : w'.clock = w.clock
  history : w'.history = w.history

/-- The session of `pid` has published its transaction. -/
structure Published (pid : Pid) (w w' : World) : Prop where
  db : w'.db = w.view pid
  own_self : w'.server.own pid = []
  savepoints : (w'.server.sessions pid).savepoints = []
  next : (w'.server.sessions pid).next = (w.server.sessions pid).next
  slot : w'.slot = w.slot
  own : ∀ q ≠ pid, w'.server.own q = w.server.own q
  sessions : ∀ q ≠ pid, w'.server.sessions q = w.server.sessions q
  storage : w'.storage = w.storage
  cache : w'.cache = w.cache
  clock : w'.clock = w.clock
  history : w'.history = w.history ++ [.commit pid (w.server.writes pid)]

section

variable {pid : Pid} {w w' : World}

/-- Nothing changes. -/
theorem Local.refl (w : World) : Local pid w w := ⟨rfl, fun _ _ => rfl, fun _ _ => rfl,
  fun _ _ => rfl, rfl, rfl, rfl, rfl⟩

/-- Replacing the session of `pid` and dropping some of its pending writes. -/
theorem local_amend {s : Txn.Session} {hs} {keep : Txn.Entry Pid Write → Bool}
    (hkeep : ∀ e, e.owner ≠ pid → keep e = true) :
    Local pid w { w with server := w.server.amend pid s hs keep } := by
  refine ⟨rfl, fun q hq => ?_, fun q hq => Function.update_of_ne hq _ _, fun _ _ => rfl, rfl, rfl,
    rfl, rfl⟩
  refine (w.server.amend_own pid q s hs keep).trans (List.filter_eq_self.mpr fun e he => ?_)
  have howner : e.owner = q := ((w.server.mem_own q).mp he).2
  exact hkeep e (by rwa [howner])

/-- A write that is recorded is not committed. -/
theorem local_record (wr : Write) :
    Local pid w { w with server := w.server.record pid wr } :=
  ⟨rfl, fun _ hq => w.server.record_own_of_ne hq wr, fun _ _ => rfl, fun _ _ => rfl, rfl, rfl, rfl,
    rfl⟩

/-- The slot of `pid` may change as well. -/
theorem Local.slot_self (h : Local pid w w') (slot : Option ℕ) :
    Local pid w { w' with slot := Function.update w'.slot pid slot } :=
  ⟨h.db, h.own, h.sessions, fun q hq => (Function.update_of_ne hq _ _).trans (h.slot q hq),
    h.storage, h.cache, h.clock, h.history⟩

/-- One local change after another. -/
theorem Local.trans {w'' : World} (h : Local pid w w') (h' : Local pid w' w'') :
    Local pid w w'' where
  db := h'.db.trans h.db
  own q hq := (h'.own q hq).trans (h.own q hq)
  sessions q hq := (h'.sessions q hq).trans (h.sessions q hq)
  slot q hq := (h'.slot q hq).trans (h.slot q hq)
  storage := h'.storage.trans h.storage
  cache := h'.cache.trans h.cache
  clock := h'.clock.trans h.clock
  history := h'.history.trans h.history

/-- What `publish` does. -/
theorem published_publish : Published pid w (w.publish pid) where
  db := rfl
  own_self := w.server.commit_own_self pid
  savepoints := by simp [World.publish]
  next := by simp [World.publish]
  slot := rfl
  own _ hq := w.server.commit_own_of_ne hq
  sessions _ hq := Function.update_of_ne hq _ _
  storage := rfl
  cache := rfl
  clock := rfl
  history := rfl

/-! ## A failed session

A fault may leave the session in need of a rollback, which changes none of the facts above. -/

/-- The world in which the session of `pid` needs a rollback, if `aborts`. -/
def World.failIf (w : World) (pid : Pid) (aborts : Bool) : World :=
  if aborts then { w with server := w.server.fail pid } else w

variable {aborts : Bool}

@[simp] theorem failIf_own (q : Pid) : (w.failIf pid aborts).server.own q = w.server.own q := by
  cases aborts <;> simp [World.failIf]

@[simp] theorem failIf_savepoints (q : Pid) : ((w.failIf pid aborts).server.sessions q).savepoints =
    (w.server.sessions q).savepoints := by
  cases aborts
  · rfl
  · rcases eq_or_ne q pid with rfl | hq
    · simp [World.failIf]
    · simp [World.failIf, Function.update_of_ne hq]

@[simp] theorem failIf_next (q : Pid) : ((w.failIf pid aborts).server.sessions q).next =
    (w.server.sessions q).next := by
  cases aborts
  · rfl
  · rcases eq_or_ne q pid with rfl | hq
    · simp [World.failIf]
    · simp [World.failIf, Function.update_of_ne hq]

@[simp] theorem failIf_slot : (w.failIf pid aborts).slot = w.slot := by cases aborts <;> rfl

/-- A session that fails is a local change. -/
theorem local_failIf : Local pid w (w.failIf pid aborts) := by
  cases aborts
  · exact Local.refl w
  · exact local_amend fun _ _ => rfl

/-- A commit may be followed by a failure. -/
theorem Published.failIf (h : Published pid w w') : Published pid w (w'.failIf pid aborts) where
  db := (local_failIf.db).trans h.db
  own_self := (failIf_own pid).trans h.own_self
  savepoints := (failIf_savepoints pid).trans h.savepoints
  next := (failIf_next pid).trans h.next
  slot := failIf_slot.trans h.slot
  own q hq := (failIf_own q).trans (h.own q hq)
  sessions q hq := (local_failIf.sessions q hq).trans (h.sessions q hq)
  storage := local_failIf.storage.trans h.storage
  cache := local_failIf.cache.trans h.cache
  clock := local_failIf.clock.trans h.clock
  history := local_failIf.history.trans h.history

end

/-- A call either raises nothing, or it raises the chosen fault and leaves a disturbed world. -/
theorem exec_cases {pid : Pid} {c : Choice} {w w' : World} {op : Op} {r : Except Exn (Reply op)}
    (h : exec pid c w op = some (r, w')) :
    attempt w pid c op = some (r, w') ∨
      ∃ f, c.fault = some f ∧ r = .error f.exn ∧ w' = (disturbed w pid c f op).failIf pid f.aborts := by
  unfold exec at h
  rcases hfault : c.fault with _ | f
  · rw [hfault] at h
    exact Or.inl h
  · rw [hfault] at h
    cases h
    exact Or.inr ⟨f, rfl, rfl, rfl⟩

/-- A call raises the fault that is chosen for it. -/
theorem exec_of_fault {pid : Pid} {c : Choice} {w w' : World} {op : Op} {r : Except Exn (Reply op)}
    {f : Fault} (hf : c.fault = some f) (h : exec pid c w op = some (r, w')) :
    r = .error f.exn ∧ w' = (disturbed w pid c f op).failIf pid f.aborts := by
  rw [exec, hf] at h
  cases h
  exact ⟨rfl, rfl⟩

/-! ## The calls of a session -/

section Calls

variable {pid : Pid} {c : Choice} {w w' : World}

/-- An INSERT that goes through writes what it was given. -/
theorem planInsert_write_eq {view : Db} {held : List Write} {sql : String} {wr wr' : Write}
    (h : planInsert view held sql wr = .write wr') : wr' = wr := by
  have hspec := planInsert_spec view held sql wr
  rw [h] at hspec
  exact hspec.1

/-- A statement that goes through writes what it says. -/
theorem plan_eq_write {s : Statement} {view : Db} {held : List Write} {now : ℕ} {sql : String}
    {wr : Write} (h : s.plan view held now sql = .write wr) : wr = s.write now := by
  cases s with
  | addBatch batchId status => exact planInsert_write_eq h
  | updateStatus batchId status errors =>
      have hspec := plan_updateStatus_spec view held now sql batchId status errors
      rw [h] at hspec
      exact hspec.1
  | insertReference t rows => exact planInsert_write_eq h
  | insertEmployees rows => exact planInsert_write_eq h

/-- The statement goes through in the world `w`. -/
def Statement.Planned (s : Statement) (pid : Pid) (w : World) : Prop :=
  ∃ sql, s.plan (w.view pid) (w.server.others pid) w.clock sql = .write (s.write w.clock)

/-- A statement records its write, or it leaves the pending writes alone, in particular when it
raises nothing but finds no row to update. -/
theorem exec_statement {s : Statement} {r : Except Exn Unit}
    (h : exec pid c w (.statement s) = some (r, w')) :
    Local pid w w' ∧ w'.slot = w.slot ∧
      (w'.server.sessions pid).savepoints = (w.server.sessions pid).savepoints ∧
      (w'.server.sessions pid).next = (w.server.sessions pid).next ∧
      ((s.Planned pid w ∧ w'.server.own pid =
          w.server.own pid ++ [⟨pid, (w.server.sessions pid).level, s.write w.clock⟩]) ∨
        (w'.server.own pid = w.server.own pid ∧ (r = .ok () →
          ∃ sql, s.plan (w.view pid) (w.server.others pid) w.clock sql = .skip))) := by
  rcases exec_cases h with hattempt | ⟨f, -, rfl, rfl⟩
  · simp only [attempt] at hattempt
    split at hattempt
    · cases hattempt
      exact ⟨Local.refl w, rfl, rfl, rfl, Or.inr ⟨rfl, nofun⟩⟩
    -- the statement writes, finds nothing to update, is refused, or waits
    rcases hplan : s.plan (w.view pid) (w.server.others pid) w.clock c.sql with wr | _ | e | _
    · rw [hplan] at hattempt
      cases hattempt
      obtain rfl := plan_eq_write hplan
      exact ⟨local_record _, rfl, rfl, rfl, Or.inl ⟨⟨c.sql, hplan⟩, w.server.record_own_self pid _⟩⟩
    · rw [hplan] at hattempt
      cases hattempt
      exact ⟨Local.refl w, rfl, rfl, rfl, Or.inr ⟨rfl, fun _ => ⟨c.sql, hplan⟩⟩⟩
    · rw [hplan] at hattempt
      cases hattempt
      exact ⟨local_amend fun _ _ => rfl, rfl, by simp, by simp, Or.inr ⟨by simp, nofun⟩⟩
    · rw [hplan] at hattempt
      cases hattempt
  · -- the write may have been made before the exception
    simp only [disturbed]
    split
    · rename_i wr hplan
      obtain rfl := plan_eq_write hplan
      split
      · refine ⟨(local_record _).trans local_failIf, failIf_slot, failIf_savepoints pid,
          failIf_next pid, Or.inl ⟨⟨c.sql, hplan⟩, ?_⟩⟩
        exact (failIf_own pid).trans (w.server.record_own_self pid _)
      · exact ⟨local_failIf, failIf_slot, failIf_savepoints pid, failIf_next pid,
          Or.inr ⟨failIf_own pid, nofun⟩⟩
    · exact ⟨local_failIf, failIf_slot, failIf_savepoints pid, failIf_next pid,
        Or.inr ⟨failIf_own pid, nofun⟩⟩

/-- An insert records its rows, or it raises. -/
theorem exec_insert {s : Statement} (hs : s.Inserts) {r : Except Exn Unit}
    (h : exec pid c w (.statement s) = some (r, w')) :
    Local pid w w' ∧ w'.slot = w.slot ∧
      (w'.server.sessions pid).savepoints = (w.server.sessions pid).savepoints ∧
      ((s.Planned pid w ∧ w'.server.own pid =
          w.server.own pid ++ [⟨pid, (w.server.sessions pid).level, s.write w.clock⟩]) ∨
        (w'.server.own pid = w.server.own pid ∧ ∃ e, r = .error e)) := by
  obtain ⟨hlocal, hslot, hsavepoints, -, hrecorded | ⟨hown, hskip⟩⟩ := exec_statement h
  · exact ⟨hlocal, hslot, hsavepoints, Or.inl hrecorded⟩
  · refine ⟨hlocal, hslot, hsavepoints, Or.inr ⟨hown, ?_⟩⟩
    cases r with
    | ok _ =>
        obtain ⟨sql, hplan⟩ := hskip rfl
        exact absurd hplan (hs.plan_ne_skip _ _ _ _)
    | error e => exact ⟨e, rfl⟩

/-- A commit publishes the transaction, also when only its acknowledgement is lost, which shows as
an `OperationalError`; or it raises and leaves the pending writes, at most without the inner
savepoints. -/
theorem exec_commit {r : Except Exn Unit} (h : exec pid c w .commit = some (r, w')) :
    (Published pid w w' ∧ (r = .ok () ∨ ∃ f, c.fault = some f ∧ f.effective = true ∧
        r = .error f.exn ∧ f.exn.isOperational = true)) ∨
      (∃ e, r = .error e ∧ Local pid w w' ∧ w'.slot = w.slot ∧
        w'.server.own pid = w.server.own pid ∧
        (w'.server.sessions pid).next = (w.server.sessions pid).next ∧
        (w'.server.sessions pid).savepoints <:+ (w.server.sessions pid).savepoints) := by
  rcases exec_cases h with hattempt | ⟨f, hf, rfl, rfl⟩
  · simp only [attempt] at hattempt
    split at hattempt
    · cases hattempt
      exact Or.inr ⟨_, rfl, Local.refl w, rfl, rfl, rfl, List.suffix_rfl⟩
    split at hattempt
    · -- too many savepoints: the inner ones have been closed
      cases hattempt
      refine Or.inr ⟨_, rfl, local_amend fun _ _ => rfl, rfl, by simp, by simp, ?_⟩
      simpa using List.drop_suffix _ _
    · cases hattempt
      exact Or.inl ⟨published_publish, Or.inl rfl⟩
  · simp only [disturbed]
    split
    · rename_i heffective
      split
      · -- only the acknowledgement is lost
        rename_i hlost
        exact Or.inl ⟨published_publish.failIf, Or.inr ⟨f, hf, heffective, rfl, hlost.1⟩⟩
      · refine Or.inr ⟨_, rfl, Local.trans (local_amend fun _ _ => rfl) local_failIf,
          failIf_slot, ?_, ?_, ?_⟩
        · simp
        · simp
        · simp
    · refine Or.inr ⟨_, rfl, local_failIf, failIf_slot, failIf_own pid, failIf_next pid, ?_⟩
      rw [failIf_savepoints]

/-- A rollback drops the pending writes; one that raises may leave them. -/
theorem exec_rollback {r : Except Exn Unit} (h : exec pid c w .rollback = some (r, w')) :
    Local pid w w' ∧ w'.slot = w.slot ∧
      (w'.server.sessions pid).next = (w.server.sessions pid).next ∧
      ((w'.server.own pid = [] ∧ (w'.server.sessions pid).savepoints = []) ∨
        ((∃ e, r = .error e) ∧ w'.server.own pid = w.server.own pid)) := by
  rcases exec_cases h with hattempt | ⟨f, -, rfl, rfl⟩
  · cases hattempt
    refine ⟨local_amend fun e he => by simpa using he, rfl, by simp, Or.inl ⟨by simp, by simp⟩⟩
  · simp only [disturbed]
    split
    · refine ⟨Local.trans (local_amend fun e he => by simpa using he) local_failIf, failIf_slot, ?_,
        Or.inl ⟨?_, ?_⟩⟩
      · simp
      · simp
      · simp
    · exact ⟨local_failIf, failIf_slot, failIf_next pid, Or.inr ⟨⟨_, rfl⟩, failIf_own pid⟩⟩

/-- `begin_nested` opens a savepoint and keeps its handle in the slot; when it raises, the slot is
as before, and the savepoint may be open all the same. -/
theorem exec_beginNested {r : Except Exn Unit} (h : exec pid c w .beginNested = some (r, w')) :
    Local pid w w' ∧ w'.server.own pid = w.server.own pid ∧
      ((r = .ok () ∧ w'.slot pid = some (w.server.sessions pid).next ∧
          (w'.server.sessions pid).savepoints =
            (w.server.sessions pid).next :: (w.server.sessions pid).savepoints) ∨
        (∃ e, r = .error e ∧ w'.slot = w.slot ∧
          ((∃ f, c.fault = some f ∧ e = f.exn) ∨ (w.server.sessions pid).failed = true))) := by
  rcases exec_cases h with hattempt | ⟨f, hf, rfl, rfl⟩
  · simp only [attempt] at hattempt
    split at hattempt
    · rename_i hfailed
      cases hattempt
      exact ⟨Local.refl w, rfl, Or.inr ⟨_, rfl, rfl, Or.inr hfailed⟩⟩
    · cases hattempt
      refine ⟨Local.slot_self (local_amend fun _ _ => rfl) _, ?_, Or.inl ⟨rfl, ?_, ?_⟩⟩
      · simp [World.savepoint]
      · simp
      · simp [World.savepoint]
  · have hraised : ∃ f', c.fault = some f' ∧ f.exn = f'.exn := ⟨f, hf, rfl⟩
    simp only [disturbed]
    split
    · refine ⟨Local.trans (local_amend fun _ _ => rfl) local_failIf, ?_,
        Or.inr ⟨_, rfl, ?_, Or.inl hraised⟩⟩
      · simp [World.savepoint]
      · exact failIf_slot
    · exact ⟨local_failIf, failIf_own pid, Or.inr ⟨_, rfl, failIf_slot, Or.inl hraised⟩⟩

/-- Going back to a savepoint is local, and undoes what was written behind it. -/
theorem rollbackTo_local {handle : ℕ} {server : Txn.Server Pid Db Write}
    (hto : w.server.rollbackTo pid handle = some server) :
    Local pid w { w with server := server } ∧
      server.own pid = (w.server.own pid).filter fun e => e.level < handle := by
  obtain ⟨-, hdb, -, hself, hown, hsessions⟩ := w.server.rollbackTo_spec hto
  refine ⟨⟨hdb, hown, fun q hq => ?_, fun _ _ => rfl, rfl, rfl, rfl, rfl⟩, hself⟩
  show server.sessions q = _
  rw [hsessions, Function.update_of_ne hq]

/-- A `rollback_to_savepoint` that raises may still have dropped pending writes. -/
theorem disturbed_rollbackToSavepoint (f : Fault) :
    Local pid w (disturbed w pid c f .rollbackToSavepoint) ∧
      ((disturbed w pid c f .rollbackToSavepoint).server.own pid).Sublist (w.server.own pid) := by
  have hsame : Local pid w w ∧ (w.server.own pid).Sublist (w.server.own pid) :=
    ⟨Local.refl w, List.Sublist.refl _⟩
  simp only [disturbed]
  rcases w.slot pid with _ | handle
  · exact hsame
  rcases hto : w.server.rollbackTo pid handle with _ | server
  · simpa only [hto] using hsame
  · simp only [hto]
    split
    · obtain ⟨hlocal, hself⟩ := rollbackTo_local hto
      refine ⟨hlocal, ?_⟩
      rw [hself]
      exact List.filter_sublist
    · exact hsame

/-- `rollback_to_savepoint` does nothing when the slot is empty; else the savepoint in the slot has
to be open, and what was written in it is dropped. When it raises, it adds nothing. -/
theorem exec_rollbackToSavepoint {r : Except Exn Unit}
    (h : exec pid c w .rollbackToSavepoint = some (r, w')) :
    Local pid w w' ∧
      ((r = .ok () ∧ w.slot pid = none ∧ w' = w) ∨
        (r = .ok () ∧ w'.slot pid = none ∧ ∃ handle, w.slot pid = some handle ∧
          handle ∈ (w.server.sessions pid).savepoints ∧
          (w'.server.sessions pid).failed = false ∧
          w'.server.own pid = (w.server.own pid).filter fun e => e.level < handle) ∨
        ((∃ e, r = .error e) ∧ (w'.server.own pid).Sublist (w.server.own pid))) := by
  rcases exec_cases h with hattempt | ⟨f, -, rfl, rfl⟩
  · simp only [attempt] at hattempt
    rcases hslot : w.slot pid with _ | handle
    · simp only [hslot] at hattempt
      cases hattempt
      exact ⟨Local.refl w, Or.inl ⟨rfl, rfl, rfl⟩⟩
    rcases hto : w.server.rollbackTo pid handle with _ | server
    · simp only [hslot, hto] at hattempt
      cases hattempt
      exact ⟨Local.refl w, Or.inr (Or.inr ⟨⟨_, rfl⟩, List.Sublist.refl _⟩)⟩
    · simp only [hslot, hto] at hattempt
      cases hattempt
      obtain ⟨hlocal, hself⟩ := rollbackTo_local hto
      obtain ⟨hmem, -, -, -, -, hsessions⟩ := w.server.rollbackTo_spec hto
      refine ⟨hlocal.slot_self none, Or.inr (Or.inl ⟨rfl, Function.update_self _ _ _, handle, rfl,
        hmem, ?_, hself⟩)⟩
      show (server.sessions pid).failed = false
      rw [hsessions, Function.update_self]
      rfl
  · obtain ⟨hlocal, hown⟩ := @disturbed_rollbackToSavepoint pid c w f
    refine ⟨hlocal.trans local_failIf, Or.inr (Or.inr ⟨⟨_, rfl⟩, ?_⟩)⟩
    rw [failIf_own]
    exact hown

/-! ## Calls without a fault -/

/-- A call without a fault. -/
theorem exec_undisturbed (hc : c.fault = none) (op : Op) : exec pid c w op = attempt w pid c op := by
  rw [exec, hc]

/-- A rollback without a fault returns, and the session can go on, without savepoints. -/
theorem exec_rollback_calm (pid : Pid) (w : World) (hc : c.fault = none) :
    ∃ w', exec pid c w .rollback = some (.ok (), w') ∧
      (w'.server.sessions pid).failed = false ∧ (w'.server.sessions pid).savepoints = [] := by
  rw [exec_undisturbed hc]
  exact ⟨_, rfl, by simp, by simp⟩

/-- In a session that can go on, the update of a status without errors is not refused. -/
theorem exec_updateStatus_calm {b : BatchId} {status : IngestionBatchStatus} {r : Except Exn Unit}
    (w : World) (hc : c.fault = none) (hw : (w.server.sessions pid).failed = false)
    (h : exec pid c w (.statement (.updateStatus b status [])) = some (r, w')) :
    r = .ok () ∧ (w'.server.sessions pid).failed = false ∧
      (w'.server.sessions pid).savepoints = (w.server.sessions pid).savepoints := by
  rw [exec_undisturbed hc] at h
  simp only [attempt, hw] at h
  have hspec := plan_updateStatus_spec (w.view pid) (w.server.others pid) w.clock c.sql b status []
  rcases hplan : (Statement.updateStatus b status []).plan (w.view pid) (w.server.others pid) w.clock
    c.sql with wr | _ | e | _
  · rw [hplan] at h
    cases h
    exact ⟨rfl, hw, rfl⟩
  · rw [hplan] at h
    cases h
    exact ⟨rfl, hw, rfl⟩
  · rw [hplan] at hspec
    exact absurd (by simp) hspec.2
  · rw [hplan] at h
    cases h

/-- In a session that can go on, a commit without a fault returns, if few savepoints are open. -/
theorem exec_commit_calm (w : World) (hc : c.fault = none)
    (hw : (w.server.sessions pid).failed = false)
    (hdepth : (w.server.sessions pid).savepoints.length ≤ c.nested) :
    exec pid c w .commit = some (.ok (), w.publish pid) := by
  rw [exec_undisturbed hc]
  simp only [attempt, hw]
  rw [if_neg Bool.false_ne_true, if_neg (Nat.not_lt.mpr hdepth)]

/-- The calls that a session which needs a rollback refuses, and the rollback itself. -/
def Op.NeedsSession : Op → Prop
  | .statement _ | .commit | .rollback | .beginNested => True
  | _ => False

/-- After such a call has gone through, the session needs no rollback. -/
theorem running_of_exec_ok {op : Op} (hop : op.NeedsSession) {a : Reply op}
    (h : exec pid c w op = some (.ok a, w')) : (w'.server.sessions pid).failed = false := by
  rcases exec_cases h with hattempt | ⟨f, -, hr, -⟩
  · cases op with
    -- a failed session refuses statements and savepoints; a commit or rollback ends the failure
    | statement s =>
        simp only [attempt] at hattempt
        split at hattempt
        · cases hattempt
        · rename_i hrunning
          split at hattempt
          all_goals cases hattempt
          all_goals simpa using hrunning
    | commit =>
        simp only [attempt] at hattempt
        split at hattempt
        · cases hattempt
        split at hattempt
        all_goals cases hattempt
        simp [World.publish]
    | rollback =>
        cases hattempt
        simp
    | beginNested =>
        simp only [attempt] at hattempt
        split at hattempt
        · cases hattempt
        · rename_i hrunning
          cases hattempt
          simpa [World.savepoint] using hrunning
    | _ => exact hop.elim
  · cases hr

/-- The chunks of a download make up the file. -/
theorem flatten_cutFile (cuts : List ℕ) (file : Bytes) : (cutFile cuts file).flatten = file := by
  induction cuts generalizing file with
  | nil => cases file <;> simp [cutFile]
  | cons n cuts ih => cases file <;> simp [cutFile, ih]

/-- However the file is cut, the chunks of a download are those of the object. -/
theorem exec_streamFile {key : ObjectKey} {r : Except Exn (List Bytes)}
    (h : exec pid c w (.streamFile key) = some (r, w')) :
    Local pid w w' ∧ w'.server.own pid = w.server.own pid ∧
      ∀ chunks, r = .ok chunks → w.storage key = some chunks.flatten := by
  rcases exec_cases h with hattempt | ⟨f, -, rfl, rfl⟩
  · simp only [attempt] at hattempt
    split at hattempt
    · cases hattempt
      exact ⟨Local.refl w, rfl, nofun⟩
    · rename_i file hfile
      cases hattempt
      refine ⟨Local.refl w, rfl, ?_⟩
      rintro _ ⟨⟩
      rw [hfile, flatten_cutFile]
  · exact ⟨local_failIf, failIf_own pid, nofun⟩

/-- An upload that goes through has stored the file. -/
theorem exec_uploadFile {key : ObjectKey} {file : Bytes} {r : Except Exn Unit}
    (h : exec pid c w (.uploadFile key file) = some (r, w')) :
    w'.db = w.db ∧ w'.server.own pid = w.server.own pid ∧
      (r = .ok () → w'.storage key = some file) := by
  rcases exec_cases h with hattempt | ⟨f, -, rfl, rfl⟩
  · cases hattempt
    exact ⟨rfl, rfl, fun _ => Function.update_self _ _ _⟩
  · have hserver : (disturbed w pid c f (.uploadFile key file)).server = w.server := by
      simp only [disturbed]
      split <;> rfl
    refine ⟨local_failIf.db.trans (by rw [World.db, hserver]), ?_, nofun⟩
    rw [failIf_own, hserver]

/-- A query returns the result on the committed database. -/
theorem exec_query {metric : Metric} {r : Except Exn (List Row)}
    (h : exec pid c w (.query metric) = some (r, w')) :
    w'.db = w.db ∧ ∀ rows, r = .ok rows → rows = metric.rows w.db := by
  rcases exec_cases h with hattempt | ⟨f, -, rfl, rfl⟩
  · cases hattempt
    refine ⟨rfl, ?_⟩
    rintro _ ⟨⟩
    rfl
  · exact ⟨local_failIf.db, nofun⟩

/-- Deleting from the cache does not touch the database, drops the keys when it goes through, and
only raises what the environment makes it raise. -/
theorem exec_cacheDelete {keys : List String} {r : Except Exn Unit}
    (h : exec pid c w (.cacheDelete keys) = some (r, w')) :
    w'.db = w.db ∧ w'.history = w.history ++ [.cacheDelete pid keys] ∧
      ((r = .ok () ∧ ∀ key ∈ keys, w'.cache key = none) ∨ ∃ f, c.fault = some f ∧ r = .error f.exn) := by
  rcases exec_cases h with hattempt | ⟨f, hf, rfl, rfl⟩
  · cases hattempt
    exact ⟨rfl, rfl, Or.inl ⟨rfl, fun key hkey => if_pos hkey⟩⟩
  · refine ⟨local_failIf.db.trans ?_, local_failIf.history, Or.inr ⟨f, hf, rfl⟩⟩
    show (if f.effective = true then w.uncache keys else w).db = w.db
    cases f.effective <;> rfl

end Calls

/-! ## Any call -/

/-- What `pid`'s call of `op` may do to the world: it leaves the other sessions alone, and it adds
to its own pending writes only what a statement writes. Only a commit publishes, only an upload
changes the storage, only the two cache calls that write change the cache, and the clock stands
still. -/
structure Called (pid : Pid) (op : Op) (w w' : World) : Prop where
  own_other : ∀ q ≠ pid, w'.server.own q = w.server.own q
  sessions_other : ∀ q ≠ pid, w'.server.sessions q = w.server.sessions q
  slot_other : ∀ q ≠ pid, w'.slot q = w.slot q
  own_self : (w'.server.own pid).Sublist (w.server.own pid) ∨
    ∃ s, op = .statement s ∧ s.Planned pid w ∧ w'.server.own pid =
      w.server.own pid ++ [⟨pid, (w.server.sessions pid).level, s.write w.clock⟩]
  db : (op = .commit ∧ Published pid w w') ∨ w'.db = w.db
  storage : ∀ key, w'.storage key = w.storage key ∨
    ∃ file, op = .uploadFile key file ∧ w'.storage key = some file
  cache : ∀ key, w'.cache key = w.cache key ∨
    (∃ keys, op = .cacheDelete keys ∧ key ∈ keys ∧ w'.cache key = none) ∨
    ∃ value ttl, op = .cacheSet key value ttl ∧ w'.cache key = some value
  clock : w'.clock = w.clock
  history : w'.history = w.history ∨ (op = .commit ∧ Published pid w w') ∨
    ∃ keys, op = .cacheDelete keys ∧ w'.history = w.history ++ [.cacheDelete pid keys]

section Any

variable {pid : Pid} {c : Choice} {w w' : World} {op : Op}

/-- A pending write of the caller was there before, or it is that of a statement. -/
theorem Called.mem_own (h : Called pid op w w') : ∀ e ∈ w'.server.own pid, e ∈ w.server.own pid ∨
    ∃ s, op = .statement s ∧ e.write = s.write w.clock := by
  intro e he
  rcases h.own_self with hsublist | ⟨s, hop, -, hown⟩
  · exact Or.inl (hsublist.subset he)
  · rw [hown] at he
    rcases List.mem_append.mp he with he | he
    · exact Or.inl he
    · exact Or.inr ⟨s, hop, by rw [List.mem_singleton.mp he]⟩

/-- A local change is one that a call may make, if it writes what the statement says. -/
theorem Local.called (h : Local pid w w') (hown : (w'.server.own pid).Sublist (w.server.own pid) ∨
    ∃ s, op = .statement s ∧ s.Planned pid w ∧ w'.server.own pid =
      w.server.own pid ++ [⟨pid, (w.server.sessions pid).level, s.write w.clock⟩]) :
    Called pid op w w' where
  own_other := h.own
  sessions_other := h.sessions
  slot_other := h.slot
  own_self := hown
  db := Or.inr h.db
  storage key := Or.inl (congrFun h.storage key)
  cache key := Or.inl (congrFun h.cache key)
  clock := h.clock
  history := Or.inl h.history

/-- A commit is one of the changes that a call may make. -/
theorem Published.called (h : Published pid w w') : Called pid .commit w w' where
  own_other := h.own
  sessions_other := h.sessions
  slot_other q _ := congrFun h.slot q
  own_self := by
    rw [h.own_self]
    exact Or.inl (List.nil_sublist _)
  db := Or.inl ⟨rfl, h⟩
  storage key := Or.inl (congrFun h.storage key)
  cache key := Or.inl (congrFun h.cache key)
  clock := h.clock
  history := Or.inr (Or.inl ⟨rfl, h⟩)

/-- A later failure of the session of `pid` does not matter. -/
theorem Called.failIf {aborts : Bool} (h : Called pid op w w') (hop : op ≠ .commit) :
    Called pid op w (w'.failIf pid aborts) where
  own_other q hq := (local_failIf.own q hq).trans (h.own_other q hq)
  sessions_other q hq := (local_failIf.sessions q hq).trans (h.sessions_other q hq)
  slot_other q hq := (local_failIf.slot q hq).trans (h.slot_other q hq)
  own_self := by
    rw [failIf_own]
    exact h.own_self
  db := Or.inr (local_failIf.db.trans (h.db.resolve_left fun hcommit => hop hcommit.1))
  storage key := by
    rw [congrFun local_failIf.storage key]
    exact h.storage key
  cache key := by
    rw [congrFun local_failIf.cache key]
    exact h.cache key
  clock := local_failIf.clock.trans h.clock
  history := by
    rw [local_failIf.history]
    rcases h.history with hsame | ⟨hcommit, -⟩ | hdelete
    · exact Or.inl hsame
    · exact absurd hcommit hop
    · exact Or.inr (Or.inr hdelete)

/-- An upload changes one object and nothing else. -/
theorem called_upload (key : ObjectKey) (file : Bytes) :
    Called pid (.uploadFile key file) w
      { w with storage := Function.update w.storage key (some file) } where
  own_other _ _ := rfl
  sessions_other _ _ := rfl
  slot_other _ _ := rfl
  own_self := Or.inl (List.Sublist.refl _)
  db := Or.inr rfl
  storage key' := by
    rcases eq_or_ne key' key with rfl | hne
    · exact Or.inr ⟨file, rfl, Function.update_self _ _ _⟩
    · exact Or.inl (Function.update_of_ne hne _ _)
  cache _ := Or.inl rfl
  clock := rfl
  history := Or.inl rfl

/-- A `set` changes one key of the cache and nothing else. -/
theorem called_cacheSet (key : String) (value : List Row) (ttl : ℕ) :
    Called pid (.cacheSet key value ttl) w
      { w with cache := Function.update w.cache key (some value) } where
  own_other _ _ := rfl
  sessions_other _ _ := rfl
  slot_other _ _ := rfl
  own_self := Or.inl (List.Sublist.refl _)
  db := Or.inr rfl
  storage _ := Or.inl rfl
  cache key' := by
    rcases eq_or_ne key' key with rfl | hne
    · exact Or.inr (Or.inr ⟨value, ttl, rfl, Function.update_self _ _ _⟩)
    · exact Or.inl (Function.update_of_ne hne _ _)
  clock := rfl
  history := Or.inl rfl

/-- A deletion is issued, and may or may not reach the cache. -/
theorem called_cacheDelete (keys : List String) (effective : Bool) :
    Called pid (.cacheDelete keys) w { (if effective then w.uncache keys else w) with
      history := w.history ++ [.cacheDelete pid keys] } where
  own_other _ _ := by cases effective <;> rfl
  sessions_other _ _ := by cases effective <;> rfl
  slot_other _ _ := by cases effective <;> rfl
  own_self := Or.inl (by cases effective <;> exact List.Sublist.refl _)
  db := Or.inr (by cases effective <;> rfl)
  storage _ := Or.inl (by cases effective <;> rfl)
  cache key := by
    cases effective
    · exact Or.inl rfl
    by_cases hkey : key ∈ keys
    · exact Or.inr (Or.inl ⟨keys, rfl, hkey, if_pos hkey⟩)
    · exact Or.inl (if_neg hkey)
  clock := by cases effective <;> rfl
  history := Or.inr (Or.inr ⟨keys, rfl, rfl⟩)

/-- What the effect of any call is limited to, with or without a fault. -/
theorem exec_called {r : Except Exn (Reply op)} (h : exec pid c w op = some (r, w')) :
    Called pid op w w' := by
  have hread : Called pid op w w := (Local.refl w).called (Or.inl (List.Sublist.refl _))
  cases op with
  | statement s =>
      obtain ⟨hlocal, -, -, -, ⟨hplanned, hown⟩ | ⟨hown, -⟩⟩ := exec_statement h
      · exact hlocal.called (Or.inr ⟨s, rfl, hplanned, hown⟩)
      · exact hlocal.called (Or.inl (hown ▸ List.Sublist.refl _))
  | commit =>
      rcases exec_commit h with ⟨hpublished, -⟩ | ⟨-, -, hlocal, -, hown, -, -⟩
      · exact hpublished.called
      · exact hlocal.called (Or.inl (hown ▸ List.Sublist.refl _))
  | rollback =>
      obtain ⟨hlocal, -, -, ⟨hown, -⟩ | ⟨-, hown⟩⟩ := exec_rollback h
      · exact hlocal.called (Or.inl (hown ▸ List.nil_sublist _))
      · exact hlocal.called (Or.inl (hown ▸ List.Sublist.refl _))
  | beginNested =>
      obtain ⟨hlocal, hown, -⟩ := exec_beginNested h
      exact hlocal.called (Or.inl (hown ▸ List.Sublist.refl _))
  | rollbackToSavepoint =>
      obtain ⟨hlocal, ⟨-, -, rfl⟩ | ⟨-, -, handle, -, -, -, hown⟩ | ⟨-, hown⟩⟩ :=
        exec_rollbackToSavepoint h
      · exact hread
      · exact hlocal.called (Or.inl (hown ▸ List.filter_sublist))
      · exact hlocal.called (Or.inl hown)
  | uploadFile key file =>
      rcases exec_cases h with hattempt | ⟨f, -, -, rfl⟩
      · cases hattempt
        exact called_upload key file
      · -- the object may have been stored before the exception
        refine Called.failIf ?_ nofun
        simp only [disturbed]
        split
        · exact called_upload key file
        · exact hread
  | cacheSet key value ttl =>
      rcases exec_cases h with hattempt | ⟨f, -, -, rfl⟩
      · cases hattempt
        exact called_cacheSet key value ttl
      · refine Called.failIf ?_ nofun
        simp only [disturbed]
        split
        · exact called_cacheSet key value ttl
        · exact hread
  | cacheDelete keys =>
      rcases exec_cases h with hattempt | ⟨f, -, -, rfl⟩
      · cases hattempt
        exact called_cacheDelete keys true
      · exact (called_cacheDelete keys f.effective).failIf nofun
  -- the calls that only read change nothing, whether there is something to read or not
  | batchGet _ | streamFile _ =>
      rcases exec_cases h with hattempt | ⟨f, -, -, rfl⟩
      · simp only [attempt] at hattempt
        split at hattempt
        all_goals
          cases hattempt
          exact hread
      · exact hread.failIf nofun
  | cacheGet _ | query _ | now =>
      rcases exec_cases h with hattempt | ⟨f, -, -, rfl⟩
      · cases hattempt
        exact hread
      · exact hread.failIf nofun

/-- Only a statement can have to wait, and only for another open transaction. -/
theorem exec_eq_none (h : exec pid c w op = none) : w.server.others pid ≠ [] := by
  intro hothers
  unfold exec at h
  rcases hfault : c.fault with _ | f
  · simp only [hfault] at h
    cases op with
    | statement s =>
        simp only [attempt] at h
        split at h
        · cases h
        rcases hplan : s.plan (w.view pid) (w.server.others pid) w.clock c.sql with wr | _ | e | _
        all_goals rw [hplan] at h
        · cases h
        · cases h
        · cases h
        · -- a plan that waits, although there is no other transaction
          rw [hothers] at hplan
          by_cases hs : s.Inserts
          · have hspec := planInsert_spec (w.view pid) [] c.sql (s.write w.clock)
            rw [← hs, hplan] at hspec
            obtain ⟨k, -, hk⟩ := hspec
            cases hk
          · cases s with
            | updateStatus batchId status errors =>
                have hspec := plan_updateStatus_spec (w.view pid) [] w.clock c.sql batchId status errors
                rw [hplan] at hspec
                cases hspec
            | _ => exact hs fun _ _ _ _ => rfl
    | commit =>
        simp only [attempt] at h
        split at h
        · cases h
        · split at h
          all_goals cases h
    | batchGet batchId | beginNested =>
        simp only [attempt] at h
        split at h
        all_goals cases h
    | rollbackToSavepoint =>
        simp only [attempt] at h
        split at h
        · cases h
        · split at h
          all_goals cases h
    | streamFile key =>
        simp only [attempt] at h
        split at h
        all_goals cases h
    | _ => cases h
  · simp only [hfault] at h
    cases h

/-- No other session has an open transaction with writes. -/
def World.Unshared (w : World) (pid : Pid) : Prop := ∀ q ≠ pid, w.server.own q = []

/-- Nobody else has pending writes where the database is not shared. -/
theorem World.Unshared.others (h : w.Unshared pid) : w.server.others pid = [] := by
  unfold Txn.Server.others
  rw [List.map_eq_nil_iff, List.filter_eq_nil_iff]
  intro e he
  have hmem : e ∈ w.server.own e.owner := (w.server.mem_own e.owner).mpr ⟨he, rfl⟩
  by_cases howner : e.owner = pid
  · simp [howner]
  · rw [h e.owner howner] at hmem
    cases hmem

/-- A process that shares the database with no other transaction never waits. -/
theorem World.Unshared.exec (h : w.Unshared pid) (c : Choice) (op : Op) :
    ∃ r w', exec pid c w op = some (r, w') ∧ w'.Unshared pid := by
  rcases hexec : HiringService.exec pid c w op with _ | ⟨r, w'⟩
  · exact absurd h.others (exec_eq_none hexec)
  · exact ⟨r, w', rfl, fun q hq => ((exec_called hexec).own_other q hq).trans (h q hq)⟩

end Any

end HiringService
