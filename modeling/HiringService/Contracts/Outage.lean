import HiringService.Calls
import HiringService.Effect.Trace
import HiringService.Frame

/-!
# Outages in a synchronous ingestion

One call of `execute` raises an `OperationalError`, the database is back for the rollback, and
nothing else goes wrong. In the bulk path the handlers roll the unit of work back and raise
`IngestionDbUnavailableError`. The fallback ends with the first `OperationalError` too, but it does
not roll back, and outside the `try` of a record it does not translate the exception either.

A commit whose acknowledgement is lost raises after it has taken effect, so rolling back comes too
late.
-/

namespace HiringService

open Effect (Program Transition)

/-- A call of process `pid`. -/
abbrev Call (pid : Pid) := Transition (machine pid)

variable {pid : Pid}

/-- The unit of work is rolled back in the course of the calls `log`. -/
def RolledBack (log : List (Call pid)) : Prop := ∃ x ∈ log, x.op = .rollback ∧ x.Returns

section

variable {t : ReferenceTable} {u : BatchId} {records : List ReferenceRecord} {w w' : World}
  {log : List (Call pid)} {c : Choice} {op : Op} {e : Exn}

/-! ## Exceptions that end the paths -/

theorem raiseTranslated_of_isOperational {α : Type} (he : e.isOperational = true) :
    (raiseTranslated e : Prog α) = .throw (.ingestionDbUnavailable e) := by
  show (Program.lift (translateDbError e)).bind _ = _
  rw [translateDbError_of_isOperational he]
  rfl

/-- Every exception ends the bulk path. -/
theorem stops_bulk : (IngestReference.bulk t u records).Stops (fun _ => True) Eq :=
  (Program.stops_request fun _ => rfl).bind fun _ =>
    (Program.stops_request fun _ => rfl).bind fun _ =>
      (Program.stops_request fun _ => rfl).bind fun _ =>
        (Program.stops_request fun _ => rfl).bind fun _ => trivial

theorem stops_insertRecord (acc : ℕ × List String) (record : ReferenceRecord) :
    (IngestReference.insertRecord t u acc record).Stops (fun e => e.isOperational = true)
      fun _ _ => True := by
  refine Program.Stops.tryExcept ?_ (fun e he => ?_) fun e => ?_
  · exact (Program.stops_request fun _ => rfl).bind fun _ =>
      (Program.stops_request fun _ => rfl).bind fun _ => trivial
  · rw [if_pos he]
    exact ⟨_, trivial, raiseTranslated_of_isOperational he⟩
  · by_cases he : e.isOperational = true
    · rw [if_pos he, raiseTranslated_of_isOperational he]
      trivial
    · rw [if_neg he]
      exact (Program.stops_request fun _ => trivial).bind fun _ => trivial

/-- An `OperationalError` ends the fallback. -/
theorem stops_fallback : (IngestReference.fallback t u records).Stops
    (fun e => e.isOperational = true) fun _ _ => True := by
  refine (Program.stops_request fun _ => trivial).bind fun _ => ?_
  refine (Program.Stops.foldlM stops_insertRecord records _).bind fun created => ?_
  refine Program.Stops.bind ?_ fun _ => trivial
  unfold IngestReference.commitCreated
  by_cases hcount : created.1 = 0
  · rw [if_pos hcount]
    trivial
  · rw [if_neg hcount]
    exact (Program.stops_request fun _ => trivial).bind fun _ =>
      Program.stops_request fun _ => trivial

/-! ## The bulk path -/

/-- The transaction of `pid` has inserted the batch `u`. -/
def World.Opened (w : World) (pid : Pid) (u : BatchId) : Prop :=
  ∃ wr ∈ w.server.writes pid, Key.batch u ∈ wr.keys

theorem World.Opened.statement {s : Statement} {r : Except Exn Unit} (h : w.Opened pid u)
    (hexec : exec pid c w (.statement s) = some (r, w')) : w'.Opened pid u := by
  obtain ⟨wr, hwr, hkey⟩ := h
  refine ⟨wr, ?_, hkey⟩
  obtain ⟨-, -, -, -, ⟨-, hown⟩ | ⟨hown, -⟩⟩ := exec_statement hexec
  · rw [Txn.Server.writes, hown, List.map_append]
    exact List.mem_append_left _ hwr
  · rwa [Txn.Server.writes, hown]

theorem opened_addBatch {status : IngestionBatchStatus} {a : Unit}
    (hexec : exec pid c w (.statement (.addBatch u status)) = some (.ok a, w')) :
    w'.Opened pid u := by
  obtain ⟨-, -, -, ⟨-, hown⟩ | ⟨-, e, he⟩⟩ := exec_insert (addBatch_inserts u status) hexec
  · refine ⟨.insertBatch ⟨u, status, none, w.clock⟩, ?_, List.mem_singleton_self _⟩
    rw [Txn.Server.writes, hown, List.map_append]
    exact List.mem_append_right _ (List.mem_singleton_self _)
  · cases he

/-- Where a bulk path ends that raises: at a call of `op` before which nothing has been committed,
and at a commit the batch is among the writes of a session that can go on. -/
structure EndsAt (pid : Pid) (u : BatchId) (w : World) (op : Op) (before : World) : Prop where
  db : before.db = w.db
  commit : op = .commit → (before.server.sessions pid).failed = false ∧ before.Opened pid u

/-- A bulk path that raises ends with the call that has raised. -/
theorem bulk_raises (h : (IngestReference.bulk t u records).Traces (machine pid) w log (.error e) w') :
    ∃ pre last, log = pre ++ [last] ∧ (∀ x ∈ pre, x.op ≠ .rollback ∧ x.Returns) ∧
      last.reply = .error e ∧ last.after = w' ∧ EndsAt pid u w last.op last.before := by
  obtain ⟨c₁, r₁, w₁, rest₁, hadd, rfl, ⟨_, rfl, h₁⟩ | ⟨_, rfl, rfl, he, rfl⟩⟩ := h.request_bind_inv
  rotate_left
  · cases he
    exact ⟨[], _, rfl, by simp, rfl, rfl, rfl, nofun⟩
  have hopened₁ := opened_addBatch hadd
  have hdb₁ := (exec_statement hadd).1.db
  obtain ⟨c₂, r₂, w₂, rest₂, hinsert, rfl, ⟨_, rfl, h₂⟩ | ⟨_, rfl, rfl, he, rfl⟩⟩ := h₁.request_bind_inv
  rotate_left
  · cases he
    exact ⟨[_], _, rfl, by simp [Transition.Returns], rfl, rfl, hdb₁, nofun⟩
  have hopened₂ := hopened₁.statement hinsert
  have hdb₂ := (exec_statement hinsert).1.db.trans hdb₁
  obtain ⟨c₃, r₃, w₃, rest₃, hupdate, rfl, ⟨_, rfl, h₃⟩ | ⟨_, rfl, rfl, he, rfl⟩⟩ := h₂.request_bind_inv
  rotate_left
  · cases he
    exact ⟨[_, _], _, rfl, by simp [Transition.Returns], rfl, rfl, hdb₂, nofun⟩
  have hopened₃ := hopened₂.statement hupdate
  have hdb₃ := (exec_statement hupdate).1.db.trans hdb₂
  have hrunning := running_of_exec_ok (show Op.NeedsSession (.statement _) from trivial) hupdate
  obtain ⟨c₄, r₄, w₄, rest₄, hcommit, rfl, ⟨_, rfl, h₄⟩ | ⟨_, rfl, rfl, he, rfl⟩⟩ := h₃.request_bind_inv
  · cases h₄
  · cases he
    exact ⟨[_, _, _], _, rfl, by simp [Transition.Returns], rfl, rfl, hdb₃,
      fun _ => ⟨hrunning, hopened₃⟩⟩

/-! ## `execute` -/

/-- The handlers of the bulk path make one call, the rollback. -/
theorem bulkFailed_inv {out : Except Exn (Option IngestionResponse)}
    (h : (IngestReference.bulkFailed e).Traces (machine pid) w log out w') :
    ∃ c r, log = [⟨.rollback, c, w, r, w'⟩] ∧ exec pid c w .rollback = some (r, w') ∧
      ((∃ e', r = .error e' ∧ out = .error e') ∨
        (r = .ok () ∧ e.isOperational = true ∧ out = .error (.ingestionDbUnavailable e)) ∨
        (r = .ok () ∧ e.isOperational = false ∧ out = .ok none)) := by
  obtain ⟨c, r, w₁, rest, hexec, rfl, ⟨_, rfl, h₁⟩ | ⟨e', rfl, rfl, rfl, rfl⟩⟩ := h.request_bind_inv
  · by_cases he : e.isOperational = true
    · rw [if_pos he, raiseTranslated_of_isOperational he] at h₁
      cases h₁
      exact ⟨c, _, rfl, hexec, Or.inr (Or.inl ⟨rfl, he, rfl⟩)⟩
    · rw [if_neg he] at h₁
      cases h₁
      exact ⟨c, _, rfl, hexec, Or.inr (Or.inr ⟨rfl, by simpa using he, rfl⟩)⟩
  · exact ⟨c, _, rfl, hexec, Or.inl ⟨e', rfl, rfl⟩⟩

/-- The course of `execute`: the bulk path, and if that raises a rollback, after which an outage is
reported and anything else goes to the fallback. -/
theorem execute_inv {out : Except Exn IngestionResponse}
    (h : (IngestReference.execute t u records).Traces (machine pid) w log out w') :
    (∃ response, out = .ok response ∧
      (IngestReference.bulk t u records).Traces (machine pid) w log (.ok response) w') ∨
    ∃ e first c r w₁ w₂ rest, log = first ++ ⟨.rollback, c, w₁, r, w₂⟩ :: rest ∧
      (IngestReference.bulk t u records).Traces (machine pid) w first (.error e) w₁ ∧
      exec pid c w₁ .rollback = some (r, w₂) ∧
      ((∃ e', r = .error e' ∧ rest = []) ∨
        (r = .ok () ∧ e.isOperational = true ∧ rest = [] ∧ w' = w₂ ∧
          out = .error (.ingestionDbUnavailable e)) ∨
        (r = .ok () ∧ e.isOperational = false ∧
          (IngestReference.fallback t u records).Traces (machine pid) w₂ rest out w')) := by
  obtain ⟨response, log₁, log₂, w₂, rfl, htry, hrest⟩ | ⟨e', rfl, htry⟩ := h.bind_inv
  · -- `try` and its handlers return: with a response, or with nothing when the fallback is next
    obtain ⟨_, ha, hbody⟩ | ⟨e, first, handler, w₁, rfl, hbody, hhandler⟩ := htry.tryExcept_inv
    · obtain ⟨bulk, hbulk, hresponse⟩ := hbody.map_inv
      cases ha
      cases bulk with
      | error e => cases hresponse
      | ok response =>
          cases hresponse
          cases hrest
          exact Or.inl ⟨_, rfl, by simpa using hbulk⟩
    · obtain ⟨bulk, hbulk, hraised⟩ := hbody.map_inv
      obtain ⟨c, r, rfl, hexec, ⟨e', -, hout⟩ | ⟨-, -, hout⟩ | ⟨rfl, he, hout⟩⟩ :=
        bulkFailed_inv hhandler
      · cases hout
      · cases hout
      · cases hout
        cases bulk with
        | ok response => cases hraised
        | error e =>
            cases hraised
            refine Or.inr ⟨e, first, c, _, w₁, w₂, log₂, by simp, hbulk, hexec, ?_⟩
            exact Or.inr (Or.inr ⟨rfl, he, hrest⟩)
  · -- a handler raises: the rollback does, or an outage is reported
    obtain ⟨_, ha, -⟩ | ⟨e, first, handler, w₁, rfl, hbody, hhandler⟩ := htry.tryExcept_inv
    · cases ha
    · obtain ⟨bulk, hbulk, hraised⟩ := hbody.map_inv
      cases bulk with
      | ok response => cases hraised
      | error e =>
          cases hraised
          obtain ⟨c, r, rfl, hexec, ⟨e', rfl, -⟩ | ⟨rfl, he, hout⟩ | ⟨-, -, hout⟩⟩ :=
            bulkFailed_inv hhandler
          · exact Or.inr ⟨e, first, c, _, w₁, w', [], rfl, hbulk, hexec, Or.inl ⟨e', rfl, rfl⟩⟩
          · cases hout
            refine Or.inr ⟨e, first, c, _, w₁, w', [], rfl, hbulk, hexec, ?_⟩
            exact Or.inr (Or.inl ⟨rfl, he, rfl, rfl, rfl⟩)
          · cases hout

/-! ## Outages -/

/-- Publishing a transaction that has inserted a batch changes the database. -/
theorem Published.db_ne (h : Published pid w w') (hw : w.Opened pid u) : w'.db ≠ w.db := by
  intro hdb
  have hkeys : ((w.view pid).keys).Perm (w.db.keys ++ (w.server.writes pid).flatMap Write.keys) :=
    Txn.Server.foldl_keys keys_apply _ _
  rw [← h.db, hdb] at hkeys
  have hlength := hkeys.length_eq
  rw [List.length_append] at hlength
  obtain ⟨wr, hwr, hkey⟩ := hw
  have hmem : Key.batch u ∈ (w.server.writes pid).flatMap Write.keys :=
    List.mem_flatMap.mpr ⟨wr, hwr, hkey⟩
  have hpos := List.length_pos_of_mem hmem
  omega

/-- What an outage at the last call of the bulk path leaves of the database: a commit whose
acknowledgement is lost has published the batch. -/
theorem EndsAt.db_iff {f : Fault} {before after : World} {r : Except Exn (Reply op)}
    (h : EndsAt pid u w op before) (hexec : exec pid c before op = some (r, after))
    (hfault : c.fault = some f) (hf : f.exn.isOperational = true) :
    after.db = w.db ↔ ¬ (op = .commit ∧ f.effective = true) := by
  obtain ⟨-, rfl⟩ := exec_of_fault hfault hexec
  by_cases hop : op = .commit
  · subst hop
    obtain ⟨hrunning, hopened⟩ := h.commit rfl
    have hrunning' : ¬ (before.server.sessions pid).failed = true := by
      rw [hrunning]
      exact Bool.false_ne_true
    by_cases heffective : f.effective = true
    · refine iff_of_false ?_ fun hnot => hnot ⟨rfl, heffective⟩
      rw [disturbed, if_pos heffective, if_pos ⟨hf, hrunning'⟩]
      have hpublished : Published pid before ((before.publish pid).failIf pid f.aborts) :=
        published_publish.failIf
      exact fun hdb => hpublished.db_ne hopened (hdb.trans h.db.symm)
    · refine iff_of_true ?_ fun hlost => heffective hlost.2
      rw [disturbed, if_neg heffective]
      exact local_failIf.db.trans h.db
  · refine iff_of_true ?_ fun hlost => hop hlost.1
    rcases (exec_called hexec).db with ⟨hcommit, -⟩ | hdb
    · exact absurd hcommit hop
    · exact hdb.trans h.db

/-- An outage in a synchronous ingestion, with nothing else going wrong, is reported as one and
undone exactly when it hits the bulk path and does not lose the acknowledgement of a commit. -/
theorem ingest_reports_outage_iff {pre post : List (Call pid)} {call : Call pid} {f : Fault}
    {out : Except Exn IngestionResponse}
    (h : (ingest t u records).Traces (machine pid) w (pre ++ call :: post) out w')
    (hfault : call.choice.fault = some f) (hf : f.exn.isOperational = true)
    (hcall : call.op ≠ .rollback) (hcalm : ∀ x ∈ pre ++ post, x.choice.fault = none) :
    (out = .error (.ingestionDbUnavailable f.exn) ∧ RolledBack post ∧ w'.db = w.db) ↔
      (∀ x ∈ pre, x.op ≠ .rollback) ∧ ¬ (call.op = .commit ∧ f.effective = true) := by
  have hexec := h.step call (by simp)
  have hraised : call.reply = .error f.exn := (exec_of_fault hfault hexec).1
  have hexecute : (IngestReference.execute t u records).Traces (machine pid) w (pre ++ call :: post)
      out w' := by
    cases t <;> exact h
  obtain ⟨response, rfl, hbulk⟩ | ⟨e, first, c, r, w₁, w₂, rest, hlog, hbulk, hrollback, hrest⟩ :=
    execute_inv hexecute
  · -- a bulk path that returns has no call that raises
    obtain ⟨-, ⟨e', -, hout⟩, -⟩ := hbulk.stops stops_bulk hraised trivial
    cases hout
  obtain ⟨pre', last, rfl, hpre', hlast, rfl, hends⟩ := bulk_raises hbulk
  rw [List.append_assoc, List.singleton_append] at hlog
  obtain ⟨mid, rfl, -⟩ | ⟨rfl, rfl, rfl⟩ | ⟨mid, rfl, hmid⟩ := Program.append_cons_cases hlog
  · -- the calls before the last one have returned
    obtain ⟨a, ha⟩ := (hpre' call (by simp)).2
    cases ha.symm.trans hraised
  · -- the bulk path ends with the outage
    cases hlast.symm.trans hraised
    have hdb := hends.db_iff hexec hfault hf
    have hreturns : r = .ok () := by
      have hc : c.fault = none := hcalm ⟨.rollback, c, call.after, r, w₂⟩ (by simp)
      rcases exec_cases hrollback with hattempt | ⟨f', hf', -, -⟩
      · cases hattempt
        rfl
      · cases hc.symm.trans hf'
    subst hreturns
    obtain ⟨e', he', -⟩ | ⟨-, -, rfl, rfl, rfl⟩ | ⟨-, hnot, -⟩ := hrest
    · cases he'
    · have hw' : w'.db = call.after.db := (exec_rollback hrollback).1.db
      rw [hw', hdb]
      refine ⟨fun h => ⟨fun x hx => (hpre' x hx).1, h.2.2⟩, fun h => ⟨rfl, ?_, h.2⟩⟩
      exact ⟨_, List.mem_singleton_self _, rfl, (), rfl⟩
    · cases hnot.symm.trans hf
  · rcases mid with _ | ⟨_, mid⟩
    · obtain ⟨rfl, -⟩ := List.cons_eq_cons.mp hmid
      exact absurd rfl hcall
    obtain ⟨rfl, rfl⟩ := List.cons_eq_cons.mp hmid
    obtain ⟨e', -, hnil⟩ | ⟨-, -, hnil, -⟩ | ⟨-, -, hfallback⟩ := hrest
    · simp at hnil
    · simp at hnil
    · -- the fallback ends with the outage
      obtain ⟨rfl, -, -⟩ := hfallback.stops stops_fallback hraised hf
      refine iff_of_false ?_ fun hbulk' => hbulk'.1 ⟨.rollback, c, last.after, r, w₂⟩ (by simp) rfl
      rintro ⟨-, ⟨x, hx, -⟩, -⟩
      cases hx

end

/-- The choice of a call that the database does not answer. -/
def unanswered : Choice :=
  { Choice.calm with fault := some ⟨.operational "server closed the connection", false, false⟩ }

/-- A database with one department. -/
def outageDb : Db := ⟨[⟨3, .completed, some [], 0⟩], [⟨1, "Sales", 3⟩], [], []⟩

/-- The database goes down at the commit, when the bulk path has written the batch and its rows. -/
theorem ingest_reports_outage_iff_sample :
    ∃ (pre post : List (Call 0)) (call : Call 0) (out : Except Exn IngestionResponse) (w' : World),
      pre.map Transition.op = [.statement (.addBatch 7 .pending),
        .statement (.insertReference .departments [⟨2, "Legal", 7⟩, ⟨3, "Support", 7⟩]),
        .statement (.updateStatus 7 .completed [])] ∧ call.op = .commit ∧
      ((out = .error (.ingestionDbUnavailable (.operational "server closed the connection")) ∧
          RolledBack post ∧ w'.db = outageDb) ↔
        (∀ x ∈ pre, x.op ≠ .rollback) ∧ ¬ (call.op = .commit ∧ false = true)) := by
  have h : (ingest .departments 7 [⟨2, "Legal"⟩, ⟨3, "Support"⟩]).Traces (machine 0)
      (World.initial outageDb fun _ => none) ([_, _, _] ++ _ :: [_]) _ _ :=
    .call (c := Choice.calm) rfl (.call (c := Choice.calm) rfl (.call (c := Choice.calm) rfl
      (.call (c := unanswered) rfl (.call (c := Choice.calm) rfl .throw))))
  exact ⟨_, _, _, _, _, rfl, rfl, ingest_reports_outage_iff h rfl rfl nofun (by simp [Choice.calm])⟩

/-- The bulk path meets a department that exists, and the database goes down before the fallback:
its first call raises the `OperationalError` as it is, and nothing is rolled back. -/
theorem fallback_outage_unreported :
    (∃ log w', (ingestDepartments 7 [⟨1, "Sales"⟩]).Traces (machine 0)
      (World.initial outageDb fun _ => none) log (.error (.operational "server closed the connection"))
      w') ∧
    ¬ ∀ (t : ReferenceTable) (u : BatchId) (records : List ReferenceRecord) (w w' : World)
      (pre post : List (Call 0)) (call : Call 0) (f : Fault) (out : Except Exn IngestionResponse),
      (ingest t u records).Traces (machine 0) w (pre ++ call :: post) out w' →
      call.choice.fault = some f → f.exn.isOperational = true → call.op ≠ .rollback →
      (∀ x ∈ pre ++ post, x.choice.fault = none) →
      out = .error (.ingestionDbUnavailable f.exn) ∧ RolledBack post ∧ w'.db = w.db := by
  have h : (ingestDepartments 7 [⟨1, "Sales"⟩]).Traces (machine 0)
      (World.initial outageDb fun _ => none) ([_, _, _] ++ _ :: []) _ _ :=
    .call (c := Choice.calm) rfl (.call (c := Choice.calm) rfl (.call (c := Choice.calm) rfl
      (.call (c := unanswered) rfl .throw)))
  refine ⟨⟨_, _, h⟩, fun hall => ?_⟩
  obtain ⟨hout, -⟩ := hall .departments 7 _ _ _ _ _ _ _ _ h rfl rfl nofun (by simp [Choice.calm])
  cases hout

end HiringService
