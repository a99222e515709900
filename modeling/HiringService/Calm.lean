import HiringService.Insertion

/-!
# Undisturbed runs

`Calmly limits pid p w Q`: run by process `pid` in the world `w`, without a fault and without another
open transaction, the program `p` ends with an outcome and a world that satisfy `Q`, where a commit
can close as many savepoints as a number that satisfies `limits`. The rules below follow the session
of `pid` through its calls:

* `Solo` is a session in a transaction with the writes `ws` and `depth` open savepoints,
* `Recoverable` is one whose last statement was refused inside a savepoint,
* `Halted` is one that needs a rollback.
-/

namespace HiringService

open Effect (Env Program)

/-- Every call is made without a fault. -/
def Choice.isCalm (limits : ℕ+ → Prop) (c : Choice) (_ : Op) : Prop :=
  c.fault = none ∧ limits c.nested

/-- What `p` does when nothing goes wrong and nobody interferes. -/
def Calmly {α : Type} (limits : ℕ+ → Prop) (pid : Pid) (p : Prog α) (w : World)
    (Q : Except Exn α → World → Prop) : Prop :=
  p.Ensures (Env.alone (machine pid) (Choice.isCalm limits)) Q w

section Rules

variable {α β : Type} {limits : ℕ+ → Prop} {pid : Pid} {w : World}

/-- Nothing is left to do. -/
theorem calmly_pure {Q : Except Exn α → World → Prop} {a : α} (h : Q (.ok a) w) :
    Calmly limits pid (.pure a) w Q := by
  rintro _ rfl
  exact h

/-- Nothing is left to do but to raise. -/
theorem calmly_throw {Q : Except Exn α → World → Prop} {e : Exn} (h : Q (.error e) w) :
    Calmly limits pid (.throw e) w Q := by
  rintro _ rfl
  exact h

/-- A weaker end. -/
theorem Calmly.mono {p : Prog α} {Q Q' : Except Exn α → World → Prop} (h : Calmly limits pid p w Q)
    (hQ : ∀ r w', Q r w' → Q' r w') : Calmly limits pid p w Q' :=
  Program.Ensures.mono h fun {r w'} => hQ r w'

/-- One part after the other. -/
theorem Calmly.bind {p : Prog α} {f : α → Prog β} {Q : Except Exn β → World → Prop}
    (h : Calmly limits pid p w fun r w' => match r with
      | .ok a => Calmly limits pid (f a) w' Q
      | .error e => Q (.error e) w') : Calmly limits pid (p.bind f) w Q := by
  refine Program.Ensures.bind (Calmly.mono h ?_)
  intro r w' hr
  cases r with
  | ok a => exact hr
  | error e => exact calmly_throw hr

/-- A `try`, by cases on how its body ends. -/
theorem Calmly.tryExcept {p : Prog α} {handler : Exn → Prog α} {Q : Except Exn α → World → Prop}
    (h : Calmly limits pid p w fun r w' => match r with
      | .ok a => Q (.ok a) w'
      | .error e => Calmly limits pid (handler e) w' Q) :
    Calmly limits pid (p.tryExcept handler) w Q := by
  refine Program.Ensures.tryExcept (Calmly.mono h ?_)
  intro r w' hr
  cases r with
  | ok a => exact calmly_pure hr
  | error e => exact hr

/-- A single call that goes through, whatever the backend chooses. -/
theorem calmly_call {op : Op} {Q : Except Exn (Reply op) → World → Prop}
    (h : ∀ c, limits c.nested → ∃ r w', attempt w pid c op = some (r, w') ∧ Q r w') :
    Calmly limits pid (call op) w Q := by
  rintro _ rfl c hc
  obtain ⟨hfault, hnested⟩ : c.fault = none ∧ limits c.nested := hc
  obtain ⟨r, w', hstep, hQ⟩ := h c hnested
  simp only [exec, hfault, hstep]
  refine ⟨trivial, ?_⟩
  cases r with
  | ok a => exact calmly_pure hQ
  | error e => exact calmly_throw hQ

/-- A value that has been computed. -/
theorem calmly_lift_ok {Q : Except Exn α → World → Prop} {x : Except Exn α} {a : α}
    (hx : x = .ok a) (h : Q (.ok a) w) : Calmly limits pid (Program.lift x) w Q := by
  rw [hx]
  exact calmly_pure h

/-- A run without faults ends as the rules say. -/
theorem Calmly.run {p : Prog α} {Q : Except Exn α → World → Prop} (h : Calmly limits pid p w Q)
    {sched : ℕ → Choice} (hsched : ∀ n, (sched n).fault = none ∧ limits (sched n).nested) :
    ∃ r m w', p.run (machine pid) sched w = some (r, fun n => sched (n + m), w') ∧ Q r w' :=
  Program.Ensures.run h fun n _ => hsched n

end Rules

/-! ## Sessions -/

section Sessions

variable (pid : Pid) (now : ℕ) (w : World) (db : Db)

/-- Only `pid` has an open transaction, which may have to be rolled back. -/
structure Halted : Prop where
  clock : w.clock = now
  committed : w.db = db
  pending : ∀ e ∈ w.server.pending, e.owner = pid

/-- The transaction of `pid`, the only open one, has made the writes `ws` and has `depth` open
savepoints. -/
structure Solo (ws : List Write) (depth : ℕ) : Prop extends Halted pid now w db where
  writes : w.server.writes pid = ws
  running : (w.server.sessions pid).failed = false
  depth : (w.server.sessions pid).savepoints.length = depth

/-- As `Solo`, but a statement was refused in one more savepoint, which `pid` has opened last. -/
structure Recoverable (ws : List Write) (depth : ℕ) : Prop extends Halted pid now w db where
  writes : w.server.writes pid = ws
  savepoint : ∃ h, w.slot pid = some h ∧ h ∈ (w.server.sessions pid).savepoints ∧
    (∀ e ∈ w.server.own pid, e.level < h) ∧
    ((w.server.sessions pid).savepoints.filter (· < h)).length = depth

end Sessions

/-- A world in which `pid` has a usable session and no transaction is open. -/
structure World.Quiet (w : World) (pid : Pid) : Prop where
  pending : w.server.pending = []
  running : (w.server.sessions pid).failed = false
  savepoints : (w.server.sessions pid).savepoints = []

/-- A process in a quiet world has a session without writes. -/
theorem World.Quiet.solo {w : World} {pid : Pid} (h : w.Quiet pid) :
    Solo pid w.clock w w.db [] 0 where
  clock := rfl
  committed := rfl
  pending e he := by
    rw [h.pending] at he
    cases he
  writes := by simp [Txn.Server.writes, Txn.Server.own, h.pending]
  running := h.running
  depth := by rw [h.savepoints, List.length_nil]

/-- The world after the session of `pid` has been closed, which rolls its transaction back. -/
theorem Halted.close {pid : Pid} {now : ℕ} {w : World} {db : Db} (h : Halted pid now w db) :
    (w.close pid).Quiet pid ∧ (w.close pid).db = db := by
  refine ⟨⟨?_, ?_, ?_⟩, h.committed⟩
  · show w.server.pending.filter _ = []
    refine List.filter_eq_nil_iff.mpr fun e he => ?_
    simp [h.pending e he]
  · simp [World.close]
  · simp [World.close]

section Calls

variable {limits : ℕ+ → Prop} {pid : Pid} {now : ℕ} {w : World} {db : Db} {ws : List Write}
  {depth : ℕ}

/-- Nobody else has pending writes. -/
theorem Halted.others (h : Halted pid now w db) : w.server.others pid = [] := by
  unfold Txn.Server.others
  rw [List.filter_eq_nil_iff.mpr, List.map_nil]
  intro e he
  simp [h.pending e he]

/-- What the session sees is the database with its own writes. -/
theorem Solo.view (h : Solo pid now w db ws depth) : w.view pid = ws.foldl Db.apply db := by
  unfold World.view Txn.Server.view
  rw [h.writes]
  exact congrArg (List.foldl Db.apply · ws) h.committed

/-- A session that has recorded a write. -/
theorem Solo.record (h : Solo pid now w db ws depth) (wr : Write) :
    Solo pid now { w with server := w.server.record pid wr } db (ws ++ [wr]) depth where
  clock := h.clock
  committed := h.committed
  pending e he := by
    rcases List.mem_append.mp he with he | he
    · exact h.pending e he
    · rw [List.mem_singleton.mp he]
  writes := by
    rw [Txn.Server.writes, Txn.Server.record_own_self, List.map_append]
    exact congrArg (· ++ [wr]) h.writes
  running := h.running
  depth := h.depth

/-- An insert with rows goes through exactly when the constraints allow it. -/
theorem calmly_insert {s : Statement} {Q : Except Exn Unit → World → Prop}
    (hs : Solo pid now w db ws depth) (hinsert : s.Inserts)
    (hok : (ws.foldl Db.apply db).Admits (s.write now) → ∀ w',
      Solo pid now w' db (ws ++ [s.write now]) depth → w'.storage = w.storage → Q (.ok ()) w')
    (herror : (s.write now).isEmpty = true ∨ ¬ (ws.foldl Db.apply db).Admits (s.write now) →
      ∀ w' e, e.isOperational = false → w' = { w with server := w.server.fail pid } →
        Q (.error e) w') :
    Calmly limits pid (call (.statement s)) w Q := by
  refine calmly_call fun c _ => ?_
  have hplan : s.plan (w.view pid) (w.server.others pid) w.clock c.sql =
      planInsert (ws.foldl Db.apply db) [] c.sql (s.write now) := by
    rw [hinsert, hs.view, hs.others, hs.clock]
  by_cases hgood : (s.write now).isEmpty = false ∧ (ws.foldl Db.apply db).Admits (s.write now)
  · rw [planInsert_of_admits c.sql hgood.1 hgood.2] at hplan
    exact ⟨_, _, by simp [attempt, hs.running, hplan], hok hgood.2 _ (hs.record _) rfl⟩
  · have hbad : (s.write now).isEmpty = true ∨ ¬ (ws.foldl Db.apply db).Admits (s.write now) := by
      rw [← Bool.not_eq_false]
      exact Classical.not_and_iff_not_or_not.mp hgood
    obtain ⟨e, hrefuse, he⟩ := planInsert_of_not_admits c.sql hbad
    rw [hrefuse] at hplan
    exact ⟨_, _, by simp [attempt, hs.running, hplan], herror hbad _ e he rfl⟩

/-- Nothing changes for a session that fails. -/
theorem Halted.fail (h : Halted pid now w db) :
    Halted pid now { w with server := w.server.fail pid } db where
  clock := h.clock
  committed := h.committed
  pending e he := h.pending e (by simpa using he)

/-- Updating the status of a batch that the session sees, with errors that can be stored. -/
theorem calmly_updateStatus {batchId : BatchId} {status : IngestionBatchStatus}
    {errors : Option (List String)} {Q : Except Exn Unit → World → Prop}
    (hs : Solo pid now w db ws depth) (hbatch : Key.batch batchId ∈ (ws.foldl Db.apply db).keys)
    (hok : (∀ e ∈ errors.getD [], storableText e) → ∀ w',
      Solo pid now w' db (ws ++ [.updateBatch batchId status (errors.getD [])]) depth → Q (.ok ()) w')
    (herror : ¬ (∀ e ∈ errors.getD [], storableText e) → ∀ w' e, e.isOperational = false →
      Halted pid now w' db → Q (.error e) w') :
    Calmly limits pid (Uow.updateStatus batchId status errors) w Q := by
  refine calmly_call fun c _ => ?_
  have hspec := plan_updateStatus_spec (w.view pid) (w.server.others pid) w.clock c.sql batchId
    status (errors.getD [])
  rcases hplan : (Statement.updateStatus batchId status (errors.getD [])).plan (w.view pid)
    (w.server.others pid) w.clock c.sql with wr | _ | e | _
  · rw [hplan] at hspec
    obtain ⟨rfl, hstorable, -⟩ := hspec
    exact ⟨_, _, by simp [attempt, hs.running, hplan], hok hstorable _ (hs.record _)⟩
  · rw [hplan, hs.view] at hspec
    exact absurd hbatch hspec
  · rw [hplan] at hspec
    exact ⟨_, _, by simp [attempt, hs.running, hplan],
      herror hspec.2 _ _ hspec.1 hs.toHalted.fail⟩
  · rw [hplan, hs.others] at hspec
    cases hspec

/-- A commit goes through when it can close the savepoints. -/
theorem calmly_commit {Q : Except Exn Unit → World → Prop} (hs : Solo pid now w db ws depth)
    (hdepth : ∀ n, limits n → depth ≤ n)
    (hQ : ∀ w', Solo pid now w' (ws.foldl Db.apply db) [] 0 → w'.storage = w.storage →
      Q (.ok ()) w') : Calmly limits pid Uow.commit w Q := by
  refine calmly_call fun c hc => ⟨.ok (), w.publish pid, ?_, hQ _ ?_ rfl⟩
  · have hlimit : ¬ c.nested < (w.server.sessions pid).savepoints.length := by
      rw [hs.depth]
      exact Nat.not_lt.mpr (hdepth c.nested hc)
    simp only [attempt, hs.running]
    rw [if_neg Bool.false_ne_true, if_neg hlimit]
  · refine ⟨⟨hs.clock, hs.view, fun e he => hs.pending e (List.mem_of_mem_filter he)⟩, ?_, ?_, ?_⟩
    · simp [World.publish, Txn.Server.writes]
    · simp [World.publish]
    · simp [World.publish]

/-- Every commit can close one savepoint. -/
theorem calmly_commit_shallow {Q : Except Exn Unit → World → Prop}
    (hs : Solo pid now w db ws depth) (hdepth : depth ≤ 1)
    (hQ : ∀ w', Solo pid now w' (ws.foldl Db.apply db) [] 0 → w'.storage = w.storage →
      Q (.ok ()) w') : Calmly limits pid Uow.commit w Q :=
  calmly_commit hs (fun n _ => hdepth.trans n.pos) hQ

/-- A commit raises when there are more savepoints than it can close. -/
theorem calmly_commit_deep {Q : Except Exn Unit → World → Prop} (hs : Solo pid now w db ws depth)
    (hdepth : ∀ n, limits n → n < depth)
    (hQ : ∀ w', Halted pid now w' db → Q (.error .recursion) w') :
    Calmly limits pid Uow.commit w Q := by
  refine calmly_call fun c hc => ⟨.error .recursion,
    { w with server := w.server.release pid c.nested }, ?_, hQ _ ?_⟩
  · have hlimit : c.nested < (w.server.sessions pid).savepoints.length := by
      rw [hs.depth]
      exact hdepth c.nested hc
    simp only [attempt, hs.running]
    rw [if_neg Bool.false_ne_true, if_pos hlimit]
  · exact ⟨hs.clock, hs.committed, fun e he => hs.pending e (by simpa using he)⟩

/-- A rollback makes any session usable, and empty. -/
theorem calmly_rollback {Q : Except Exn Unit → World → Prop} (hs : Halted pid now w db)
    (hQ : ∀ w', Solo pid now w' db [] 0 → Q (.ok ()) w') : Calmly limits pid Uow.rollback w Q := by
  refine calmly_call fun c _ => ⟨_, _, rfl, hQ _ ?_⟩
  refine ⟨⟨hs.clock, hs.committed, fun e he => hs.pending e (List.mem_of_mem_filter he)⟩, ?_, ?_, ?_⟩
  · simp [Txn.Server.writes]
  · simp
  · simp

/-- Opening a savepoint; what is refused after that is recoverable. -/
theorem calmly_beginNested {Q : Except Exn Unit → World → Prop} (hs : Solo pid now w db ws depth)
    (hQ : ∀ w', Solo pid now w' db ws (depth + 1) →
      Recoverable pid now { w' with server := w'.server.fail pid } db ws depth → Q (.ok ()) w') :
    Calmly limits pid Uow.beginNested w Q := by
  refine calmly_call fun c _ => ⟨.ok (), { w.savepoint pid with
    slot := Function.update w.slot pid (some (w.server.sessions pid).next) },
    by simp [attempt, hs.running], hQ _ ?_ ?_⟩
  · refine ⟨⟨hs.clock, hs.committed, fun e he => hs.pending e (List.mem_of_mem_filter he)⟩,
      ?_, ?_, ?_⟩
    · simpa [World.savepoint, Txn.Server.writes] using hs.writes
    · simpa [World.savepoint] using hs.running
    · simpa [World.savepoint] using hs.depth
  · refine ⟨⟨hs.clock, hs.committed, fun e he => ?_⟩, ?_, ?_⟩
    · exact hs.pending e (List.mem_of_mem_filter (List.mem_of_mem_filter he))
    · simpa [World.savepoint, Txn.Server.writes] using hs.writes
    · refine ⟨(w.server.sessions pid).next, by simp, by simp [World.savepoint], fun e he => ?_, ?_⟩
      · exact w.server.own_level_lt pid (by simpa [World.savepoint] using he)
      · -- the savepoints that were open before are outside the new one
        have houter : (w.server.sessions pid).savepoints.filter
            (· < (w.server.sessions pid).next) = (w.server.sessions pid).savepoints :=
          List.filter_eq_self.mpr fun h hh => by
            simpa using (w.server.sessions pid).savepoints_lt h hh
        simpa [World.savepoint, houter] using hs.depth

/-- Going back to the savepoint of the refused statement. -/
theorem calmly_rollbackToSavepoint {Q : Except Exn Unit → World → Prop}
    (hs : Recoverable pid now w db ws depth) (hQ : ∀ w', Solo pid now w' db ws depth → Q (.ok ()) w') :
    Calmly limits pid Uow.rollbackToSavepoint w Q := by
  obtain ⟨h, hslot, hopen, hlevel, hdepth⟩ := hs.savepoint
  obtain ⟨server, hto⟩ := w.server.rollbackTo_isSome pid hopen
  obtain ⟨-, hcommitted, hpending, hown, -, hsessions⟩ := w.server.rollbackTo_spec hto
  refine calmly_call fun c _ => ⟨_, _, by simp only [attempt, hslot, hto]; exact rfl, hQ _ ?_⟩
  refine ⟨⟨hs.clock, hcommitted.trans hs.committed, fun e he => ?_⟩, ?_, ?_, ?_⟩
  · exact hs.pending e (List.mem_of_mem_filter (hpending ▸ he))
  · show server.writes pid = ws
    rw [Txn.Server.writes, hown, List.filter_eq_self.mpr (by simpa using hlevel)]
    exact hs.writes
  · simp [hsessions]
  · simpa [hsessions, Txn.Session.popTo_savepoints] using hdepth

end Calls

end HiringService
