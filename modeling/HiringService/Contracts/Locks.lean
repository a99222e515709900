import HiringService.Contracts.Session
import HiringService.Effect.Typestate

/-!
# When a session writes

A statement may have to wait for another transaction, which in turn may have to wait for this one if
it has written something itself. `sessionType` is the discipline under which that cannot happen: a
statement is only made by a session that has no pending writes. Uploads, workers and polls keep to
it, whatever raises; only the row-by-row fallback of the synchronous ingestions does not.
-/

namespace HiringService

open Effect (Program Typestate)

/-! ## The typestate of a session -/

/-- What is known about the writes of a session: there are none; there are none, and a savepoint has
just been opened; all of them can be undone by going back to the slot; nothing. -/
inductive SessionState
  | clear
  | opened
  | undoable
  | unknown
  deriving DecidableEq

/-- The session is in the given state. -/
def SessionState.Holds (pid : Pid) (w : World) : SessionState → Prop
  | .clear => w.server.own pid = []
  | .opened => Nested [] [] (w.server.own pid) (w.server.sessions pid) (w.slot pid)
  | .undoable => Undoable [] (w.server.own pid) (w.server.sessions pid) (w.slot pid)
  | .unknown => True

/-- The state of the session after a call. -/
def SessionState.next : SessionState → (op : Op) → Except Exn (Reply op) → SessionState
  | .clear, .statement _, _ => .unknown
  | .clear, .beginNested, .ok _ => .opened
  | .clear, _, _ => .clear
  | .opened, .statement _, _ => .undoable
  | .undoable, .rollbackToSavepoint, .ok _ => .clear
  | .undoable, .commit, .error _ => .undoable
  | _, .commit, .ok _ => .clear
  | _, .rollback, .ok _ => .clear
  | _, _, _ => .unknown

/-- A statement is only made where nothing is pending. -/
def sessionType : Typestate Op Reply Exn SessionState where
  legal state op := (∃ st, op = .statement st) → state = .clear ∨ state = .opened
  next := SessionState.next

section Session

variable {pid : Pid} {c : Choice} {w w' : World} {state : SessionState}

/-- Legal statements are made by sessions that have written nothing. -/
theorem own_of_legal {st : Statement} (h : state.Holds pid w)
    (hlegal : sessionType.legal state (.statement st)) : w.server.own pid = [] := by
  rcases hlegal ⟨st, rfl⟩ with rfl | rfl
  · exact h
  · exact List.map_eq_nil_iff.mp h.2.1

/-- Only a statement makes a session write. -/
theorem own_nil_of_called {op : Op} (h : Called pid op w w') (hop : ∀ st, op ≠ .statement st)
    (hnil : w.server.own pid = []) : w'.server.own pid = [] := by
  rcases h.own_self with hsub | ⟨st, rfl, -⟩
  · exact List.sublist_nil.mp (hnil ▸ hsub)
  · exact absurd rfl (hop st)

/-- A `begin_nested` that returns, in a session that has written nothing. -/
theorem opened_of_beginNested (hnil : w.server.own pid = [])
    (h : exec pid c w .beginNested = some (.ok (), w')) : SessionState.opened.Holds pid w' := by
  obtain ⟨-, hown, ⟨-, hslot, hsavepoints⟩ | ⟨e, he, -⟩⟩ := exec_beginNested h
  · have hlevel : (w'.server.sessions pid).level = (w.server.sessions pid).next := by
      rw [Txn.Session.level, hsavepoints, List.headD_cons]
    refine ⟨by rw [hslot, hlevel], ?_, ?_⟩
    · rw [hown, hnil]
      rfl
    · rw [hown, hnil]
      rfl
  · cases he

/-- A statement in a savepoint that has just been opened can be undone. -/
theorem undoable_of_statement {st : Statement} {r : Except Exn Unit}
    (hs : SessionState.opened.Holds pid w) (h : exec pid c w (.statement st) = some (r, w')) :
    SessionState.undoable.Holds pid w' := by
  obtain ⟨-, hslot, hsavepoints, -, hcases⟩ := exec_statement h
  obtain ⟨hslot₀, hws, -⟩ := hs
  have hnil : w.server.own pid = [] := List.map_eq_nil_iff.mp hws
  have hlevel : (w'.server.sessions pid).level = (w.server.sessions pid).level := by
    rw [Txn.Session.level, hsavepoints, ← Txn.Session.level]
  rcases hcases with ⟨-, hown⟩ | ⟨hown, -⟩
  · have hnested : Nested [] [st.write w.clock] (w'.server.own pid) (w'.server.sessions pid)
        (w'.slot pid) := by
      refine ⟨?_, ?_, ?_⟩
      · rw [hslot, hlevel, hslot₀]
      · rw [hown, hnil]
        rfl
      · rw [hown, hnil, hlevel, List.nil_append, List.filter_cons_of_neg (by simp)]
        rfl
    exact hnested.undoable
  · exact undoable_nil (s := w'.server.sessions pid) (hown.trans hnil)

/-- A commit that returns leaves nothing pending. -/
theorem clear_of_commit (h : exec pid c w .commit = some (.ok (), w')) :
    SessionState.clear.Holds pid w' := by
  rcases exec_commit h with ⟨hpublished, -⟩ | ⟨e, he, -⟩
  · exact hpublished.own_self
  · cases he

/-- A rollback that returns leaves nothing pending. -/
theorem clear_of_rollback (h : exec pid c w .rollback = some (.ok (), w')) :
    SessionState.clear.Holds pid w' := by
  obtain ⟨-, -, -, ⟨hnil, -⟩ | ⟨⟨e, he⟩, -⟩⟩ := exec_rollback h
  · exact hnil
  · cases he

/-- A commit that raises has published everything or nothing. -/
theorem undoable_of_commit {e : Exn} (hs : SessionState.undoable.Holds pid w)
    (h : exec pid c w .commit = some (.error e, w')) : SessionState.undoable.Holds pid w' := by
  rcases exec_commit h with ⟨hpublished, -⟩ | ⟨-, -, -, hslot, hown, -, -⟩
  · exact undoable_nil (s := w'.server.sessions pid) hpublished.own_self
  · rw [SessionState.Holds, hslot, hown]
    exact hs

/-- Going back to the slot undoes everything, where everything can be undone. -/
theorem clear_of_rollbackToSavepoint (hs : SessionState.undoable.Holds pid w)
    (h : exec pid c w .rollbackToSavepoint = some (.ok (), w')) :
    SessionState.clear.Holds pid w' := by
  obtain ⟨hnone, hsome⟩ := hs
  obtain ⟨-, ⟨-, hslot, rfl⟩ | ⟨-, -, handle, hslot, -, -, hown⟩ | ⟨⟨e, he⟩, -⟩⟩ :=
    exec_rollbackToSavepoint h
  · exact List.map_eq_nil_iff.mp (hnone hslot)
  · exact hown.trans (List.map_eq_nil_iff.mp (hsome handle hslot))
  · cases he

/-- The typestate tells the truth about the session, whatever the environment chooses. -/
theorem SessionState.Holds.next {op : Op} {r : Except Exn (Reply op)} (h : state.Holds pid w)
    (hexec : exec pid c w op = some (r, w')) : (sessionType.next state op r).Holds pid w' := by
  cases state with
  | clear =>
      have hclear : (∀ st, op ≠ .statement st) → SessionState.clear.Holds pid w' :=
        fun hop => own_nil_of_called (exec_called hexec) hop h
      cases op with
      | statement st => trivial
      | beginNested =>
          cases r with
          | ok _ => exact opened_of_beginNested h hexec
          | error e => exact hclear nofun
      | _ => exact hclear nofun
  | opened =>
      cases op with
      | statement st => exact undoable_of_statement h hexec
      | commit =>
          cases r with
          | ok _ => exact clear_of_commit hexec
          | error e => trivial
      | rollback =>
          cases r with
          | ok _ => exact clear_of_rollback hexec
          | error e => trivial
      | _ => trivial
  | undoable =>
      cases op with
      | commit =>
          cases r with
          | ok _ => exact clear_of_commit hexec
          | error e => exact undoable_of_commit h hexec
      | rollback =>
          cases r with
          | ok _ => exact clear_of_rollback hexec
          | error e => trivial
      | rollbackToSavepoint =>
          cases r with
          | ok _ => exact clear_of_rollbackToSavepoint h hexec
          | error e => trivial
      | _ => trivial
  | unknown =>
      cases op with
      | commit =>
          cases r with
          | ok _ => exact clear_of_commit hexec
          | error e => trivial
      | rollback =>
          cases r with
          | ok _ => exact clear_of_rollback hexec
          | error e => trivial
      | _ => trivial

end Session

/-! ## Uploads, workers and polls -/

section Programs

variable {cfg : Settings} {b : BatchId} {state : SessionState}

/-- The program keeps to the discipline. -/
abbrev Careful {α : Type} (p : Prog α) (state : SessionState) : Prop :=
  p.Typed sessionType (fun _ _ => True) state

/-- The program keeps to the discipline and returns only when nothing is pending. -/
abbrev Clears {α : Type} (p : Prog α) (state : SessionState) : Prop :=
  p.Typed sessionType (fun r state' => match r with
    | .ok _ => state' = .clear
    | .error _ => True) state

/-- A program without statements keeps to the discipline, in any state. -/
theorem careful_of_uses {α : Type} {p : Prog α} (hp : p.Uses fun op => ∀ st, op ≠ .statement st) :
    Careful p state :=
  Program.typed_of_uses hp fun _ _ hop hst => absurd hst.choose_spec (hop _)

/-- An upload makes one statement, and commits it. -/
theorem careful_ingestEmployees (file : Bytes) :
    Careful (ingestEmployees cfg b file) .clear := by
  refine Program.typed_call_bind (fun h => Or.inl rfl) (fun _ => ?_) fun _ => trivial
  refine Program.typed_call_bind (fun h => Or.inl rfl) (fun _ => ?_) fun _ => trivial
  exact careful_of_uses (Program.Uses.bind (Program.uses_request nofun) fun _ => trivial)

/-- A poll makes one statement at most. -/
theorem careful_getBatchStatus : Careful (getBatchStatus cfg b) .clear := by
  refine Program.typed_call_bind (fun h => Or.inl rfl) (fun found => ?_) fun _ => trivial
  rcases found with _ | batch
  · trivial
  show Program.Typed _ _ (if batch.status = .pending then _ else _) _
  split
  · refine Program.typed_call_bind (fun h => Or.inl rfl) (fun now => ?_) fun _ => trivial
    show Program.Typed _ _ (if isStale cfg batch.createdAt now = true then _ else _) _
    split
    · refine Program.typed_call_bind (fun h => Or.inl rfl) (fun _ => ?_) fun _ => trivial
      refine careful_of_uses (Program.Uses.bind (Program.uses_request nofun) fun _ => ?_)
      refine Program.Uses.bind ?_ fun _ => trivial
      refine Program.Uses.bind (Program.uses_request nofun) fun found => ?_
      cases found <;> trivial
    · trivial
  · trivial

/-- A rollback that returns clears the session. -/
theorem clears_rollback {α : Type} {f : Unit → Prog α} (hf : Clears (f ()) .clear) :
    Clears (Uow.rollback.bind f) state := by
  refine Program.typed_call_bind ?_ (fun _ => ?_) fun _ => trivial
  · rintro ⟨st, hst⟩
    cases hst
  · cases state <;> exact hf

/-- The handler of an outage raises. -/
theorem clears_raiseTranslated {α : Type} (exc : Exn) :
    Clears (raiseTranslated exc : Prog α) state := by
  obtain ⟨e, he⟩ := @raiseTranslated_eq α exc
  rw [he]
  trivial

/-- The bulk insert is followed by its commit, or by a rollback. -/
theorem clears_writeBulk (records : List EmployeeRecord) : Clears (writeBulk b records) .clear := by
  have hhandler : ∀ (exc : Exn) (state : SessionState), Clears (do
      Uow.rollback
      if exc.isOperational then raiseTranslated exc else return false : Prog Bool) state := by
    intro exc state
    refine clears_rollback ?_
    show Program.Typed _ _ (if exc.isOperational = true then _ else _) _
    split
    · exact clears_raiseTranslated exc
    · rfl
  refine Program.Typed.tryExcept ?_
  refine Program.typed_call_bind (fun h => Or.inl rfl) (fun _ => ?_) fun exc => hhandler exc _
  exact Program.typed_call_bind nofun (fun _ => rfl) fun exc => hhandler exc _

/-- A row is written in a savepoint of its own: when the insert or the commit raises, going back to
the savepoint clears the session. -/
theorem clears_writeRow (errors : List String) (record : EmployeeRecord) :
    Clears (writeRow b errors record) .clear := by
  have hhandler : ∀ (exc : Exn) (state : SessionState), state = .clear ∨ state = .undoable →
      Clears (do
        if exc.isOperational then
          Uow.rollback
          raiseTranslated exc
        else
          Uow.rollbackToSavepoint
          return errors ++ [record.entry] : Prog (List String)) state := by
    intro exc state hstate
    show Program.Typed _ _ (if exc.isOperational = true then _ else _) _
    split
    · exact clears_rollback (clears_raiseTranslated exc)
    · refine Program.typed_call_bind nofun (fun _ => ?_) fun _ => trivial
      rcases hstate with rfl | rfl <;> rfl
  refine Program.Typed.tryExcept ?_
  refine Program.typed_call_bind nofun (fun _ => ?_) fun exc => hhandler exc _ (Or.inl rfl)
  refine Program.typed_call_bind (fun h => Or.inr rfl) (fun _ => ?_)
    fun exc => hhandler exc _ (Or.inr rfl)
  exact Program.typed_call_bind nofun (fun _ => rfl) fun exc => hhandler exc _ (Or.inr rfl)

/-- One chunk: the bulk insert, and then the rows one by one. -/
theorem clears_writeEmployees (records : List EmployeeRecord) :
    Clears (writeEmployees b records) .clear := by
  refine Program.Typed.bind ((clears_writeBulk records).mono fun {r state} h => ?_)
  match r with
  | .ok true => exact h
  | .ok false =>
      subst h
      refine Program.typed_foldlM (fun errors record => ?_) (fun _ => rfl) []
      refine (clears_writeRow errors record).mono fun {r state} h => ?_
      cases r with
      | ok _ => exact h
      | error e => trivial
  | .error e => trivial

/-- The chunks one after the other, by induction. -/
theorem clears_writeChunks (errors : List String) (chunks : List (List EmployeeRecord)) :
    Clears (writeChunks b errors chunks) .clear := by
  refine Program.typed_foldlM (fun errors chunk => ?_) (fun _ => rfl) errors
  refine Program.Typed.bind ((clears_writeEmployees chunk).mono fun {r state} h => ?_)
  cases r with
  | ok chunkErrors => exact h
  | error e => trivial

/-- The download and the parser make no statements. -/
theorem clears_ingestFile : Clears (ingestFile b cfg) .clear := by
  refine Program.Typed.bind ?_
  refine Program.typed_call_bind nofun (fun chunks => ?_) fun _ => trivial
  show Program.Typed _ _ ((Program.lift (parseEmployees chunks.flatten)).bind _ : Prog _) _
  rcases parseEmployees chunks.flatten with e | ⟨records, parseErrors⟩
  · trivial
  show Program.Typed _ _ ((Program.lift (iterChunks records cfg.employeeChunkSize)).bind _ : Prog _) _
  rcases iterChunks records cfg.employeeChunkSize with e | chunks'
  · trivial
  · exact clears_writeChunks parseErrors chunks'

/-- The handler begins with a rollback, so it may start in any state. -/
theorem careful_markBatchFailed (state : SessionState) : Careful (markBatchFailed b) state := by
  refine Program.Typed.tryExcept ?_
  have hhandler : ∀ state, Careful Uow.rollback state :=
    fun state => careful_of_uses (Program.uses_request nofun)
  refine Program.typed_call_bind nofun (fun _ => ?_) fun _ => hhandler _
  refine Program.typed_call_bind (fun _ => ?_) (fun _ => ?_) fun _ => hhandler _
  · cases state <;> exact Or.inl rfl
  · refine ⟨nofun, fun r => ?_⟩
    cases r with
    | ok _ => trivial
    | error e => exact hhandler _

/-- A worker makes each of its statements with nothing pending, whatever raises. -/
theorem careful_streamAndProcess : Careful (streamAndProcess b cfg) .clear := by
  have hhandler : ∀ (exc : Exn) (state : SessionState), Careful (do
      markBatchFailed b
      throw exc : Prog Unit) state :=
    fun exc state => Program.Typed.bind ((careful_markBatchFailed state).mono fun {r _} _ => by
      cases r <;> trivial)
  refine Program.Typed.tryExcept (Program.Typed.bind (clears_ingestFile.mono fun {r state} h => ?_))
  cases r with
  | error e => exact hhandler e state
  | ok errors =>
      subst h
      refine Program.Typed.bind ?_
      refine Program.typed_call_bind (fun _ => Or.inl rfl) (fun _ => ?_) fun e => hhandler e _
      refine ⟨nofun, fun r => ?_⟩
      cases r with
      | error e => exact hhandler e _
      | ok _ =>
          refine ⟨nofun, fun r => ?_⟩
          cases r with
          | ok _ => trivial
          | error e => exact hhandler e _

end Programs

end HiringService
