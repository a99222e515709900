import HiringService.Effect.Outcomes
import HiringService.Frame
import HiringService.Service

/-!
# How requests end

The exceptions that a request raises to its client, and what its response says about the records
that it was given. The errors of `core/exceptions` only reach a client where the code raises them: a
conflict or a missing reference never does, and an outage of the database is an
`IngestionDbUnavailableError` in ingestions only.
-/

namespace HiringService

open Effect (Program)

/-! ## What calls raise -/

/-- An error of `core/exceptions`, or the refusal of `validate_batch`. -/
def Exn.isDomain : Exn → Bool
  | .http .. => true
  | .recordConflict .. => true
  | .recordForeignKey .. => true
  | .ingestionDbUnavailable _ => true
  | .batchNotFound _ => true
  | .analyticsUnavailable _ => true
  | _ => false

/-- The ports do not raise the errors of the code. -/
def Op.May (op : Op) (r : Except Exn (Reply op)) : Prop := ∀ e, r = .error e → e.isDomain = false

section Calls

variable {pid : Pid} {c : Choice} {w w' : World}

/-- The database refuses statements with its own exceptions. -/
theorem isDomain_of_plan_refuse {s : Statement} {view : Db} {held : List Write} {now : ℕ}
    {sql : String} {e : Exn} (h : s.plan view held now sql = .refuse e) : e.isDomain = false := by
  have hinsert : ∀ wr, planInsert view held sql wr = .refuse e → e.isDomain = false := by
    intro wr h
    unfold planInsert at h
    split at h
    · cases h
      rfl
    split at h
    · cases h
      rfl
    split at h
    · cases h
      rfl
    · cases h
    · split at h
      · cases h
        rfl
      · cases h
  cases s with
  | updateStatus b status errors =>
      simp only [Statement.plan] at h
      split_ifs at h
      cases h
      rfl
  | _ => exact hinsert _ h

/-- An exception of a call is none of the code, or its port has raised it. -/
theorem raised_of_exec {op : Op} {e : Exn} (h : exec pid c w op = some (.error e, w')) :
    e.isDomain = false ∨ ∃ f, c.fault = some f ∧ e = f.exn := by
  rcases exec_cases h with hattempt | ⟨f, hf, he, -⟩
  · refine Or.inl ?_
    cases op with
    | statement s =>
        simp only [attempt] at hattempt
        split at hattempt
        · cases hattempt
          rfl
        · split at hattempt
          · cases hattempt
          · cases hattempt
          · cases hattempt
            exact isDomain_of_plan_refuse ‹_›
          · cases hattempt
    | commit | rollbackToSavepoint =>
        simp only [attempt] at hattempt
        split at hattempt
        · cases hattempt
          try rfl
        · split at hattempt
          · cases hattempt
            rfl
          · cases hattempt
    | batchGet _ | beginNested | streamFile _ =>
        simp only [attempt] at hattempt
        split at hattempt
        all_goals
          cases hattempt
          try rfl
    | _ => cases hattempt
  · exact Or.inr ⟨f, hf, Except.error.inj he⟩

theorem may_of_exec {op : Op} {r : Except Exn (Reply op)}
    (hfault : ∀ f, c.fault = some f → f.exn.isDomain = false)
    (h : exec pid c w op = some (r, w')) : op.May r := by
  rintro e rfl
  rcases raised_of_exec h with hdatabase | ⟨f, hf, rfl⟩
  · exact hdatabase
  · exact hfault f hf

end Calls

/-! ## Use cases -/

/-- An exception that an ingestion, an upload or a worker lets out. -/
def Exn.IsOutage (e : Exn) : Prop :=
  e.isDomain = true → ∃ cause, cause.isOperational = true ∧ e = .ingestionDbUnavailable cause

/-- An exception that is none of the code is let out as it is. -/
theorem isOutage_of_not_isDomain {e : Exn} (h : e.isDomain = false) : e.IsOutage := by
  intro hdomain
  rw [h] at hdomain
  cases hdomain

section UseCases

variable {α : Type}

/-- What a program of the code returns, and what it raises. -/
abbrev Ends (p : Prog α) (P : α → Prop) (E : Exn → Prop) : Prop := p.Outcomes Op.May P E

variable {P : α → Prop} {E : Exn → Prop}

/-- A call in front of a program. -/
theorem ends_call_bind {op : Op} {f : Reply op → Prog α}
    (hraises : ∀ e, e.isDomain = false → E e) (hf : ∀ a, Ends (f a) P E) :
    Ends ((call op).bind f) P E :=
  Program.outcomes_call (fun a _ => hf a) fun e he => hraises e (he e rfl)

/-- A single call. -/
theorem ends_call {op : Op} {P : Reply op → Prop} (hraises : ∀ e, e.isDomain = false → E e)
    (hreturns : ∀ a, P a) : Ends (call op) P E :=
  Program.outcomes_request (fun a _ => hreturns a) fun e he => hraises e (he e rfl)

/-- The handler of an outage. -/
theorem ends_raiseTranslated {exc : Exn} (h : exc.isOperational = true) :
    Ends (raiseTranslated exc) P Exn.IsOutage := by
  rw [raiseTranslated, translateDbError_of_isOperational h]
  exact fun _ => ⟨exc, h, rfl⟩

end UseCases

namespace IngestReference

variable {t : ReferenceTable} {u : BatchId} {records : List ReferenceRecord}

/-- Each of the records is reported, as created or as an error. -/
def Reports (records : List ReferenceRecord) (response : IngestionResponse) : Prop :=
  response.createdCount + response.errors.length = records.length

theorem ends_bulk : Ends (bulk t u records) (Reports records) fun e => e.isDomain = false :=
  ends_call_bind (fun _ => id) fun _ => ends_call_bind (fun _ => id) fun _ =>
    ends_call_bind (fun _ => id) fun _ => ends_call_bind (fun _ => id) fun _ => Nat.add_zero _

theorem ends_insertRecord (done : List ReferenceRecord) (acc : ℕ × List String)
    (record : ReferenceRecord) (hacc : acc.1 + acc.2.length = done.length) :
    Ends (insertRecord t u acc record)
      (fun acc' => acc'.1 + acc'.2.length = (done ++ [record]).length) Exn.IsOutage := by
  have hcreated : acc.1 + 1 + acc.2.length = (done ++ [record]).length := by
    simp only [List.length_append, List.length_singleton]
    omega
  have hrejected : acc.1 + (acc.2 ++ [record.entry]).length = (done ++ [record]).length := by
    simp only [List.length_append, List.length_singleton]
    omega
  have hbody : Ends
      (do
        Uow.beginNested
        Uow.referenceAdd t record u
        return (acc.1 + 1, acc.2) : Prog (ℕ × List String))
      (fun acc' => acc'.1 + acc'.2.length = (done ++ [record]).length) fun e => e.isDomain = false :=
    ends_call_bind (fun _ => id) fun _ => ends_call_bind (fun _ => id) fun _ => hcreated
  refine Program.Outcomes.tryExcept (hbody.mono (fun _ => id) fun exc _ => ?_)
  split
  · exact ends_raiseTranslated ‹_›
  · exact ends_call_bind (fun _ => isOutage_of_not_isDomain) fun _ => hrejected

theorem ends_fallback : Ends (fallback t u records) (Reports records) Exn.IsOutage := by
  refine ends_call_bind (fun _ => isOutage_of_not_isDomain) fun _ => Program.Outcomes.bind ?_
  refine (Program.outcomes_foldlM (I := fun done acc => acc.1 + acc.2.length = done.length)
    ends_insertRecord rfl).mono (fun acc hacc => Program.Outcomes.bind ?_) fun _ => id
  unfold commitCreated
  split
  · exact hacc
  · exact ends_call_bind (fun _ => isOutage_of_not_isDomain) fun _ =>
      ends_call (fun _ => isOutage_of_not_isDomain) fun _ => hacc

/-- A synchronous ingestion reports each of its records. -/
theorem ends_execute : Ends (execute t u records) (Reports records) Exn.IsOutage := by
  refine Program.Outcomes.bind (Program.Outcomes.tryExcept (Program.Outcomes.bind ?_))
  refine ends_bulk.mono (fun response hresponse => hresponse) fun exc _ => ?_
  refine ends_call_bind (fun _ => isOutage_of_not_isDomain) fun _ => ?_
  split
  · exact ends_raiseTranslated ‹_›
  · exact ends_fallback

end IngestReference

/-! ## Requests -/

section Requests

variable {cfg : Settings}

theorem ends_ingestEmployees (u : BatchId) (file : Bytes) :
    Ends (ingestEmployees cfg u file) (· = u) fun e => e.isDomain = false :=
  ends_call_bind (fun _ => id) fun _ => ends_call_bind (fun _ => id) fun _ =>
    ends_call_bind (fun _ => id) fun _ => rfl

/-- `HTTPException`. -/
def Exn.isHttp : Exn → Bool
  | .http .. => true
  | _ => false

theorem isHttp_of_not_isDomain {e : Exn} (h : e.isDomain = false) : e.isHttp = false := by
  cases e with
  | http => exact h
  | _ => rfl

/-- The port does not raise `HTTPException`. -/
def Op.RaisesNoHttp (op : Op) (r : Except Exn (Reply op)) : Prop :=
  ∀ e, r = .error e → e.isHttp = false

theorem outcomes_ingestEmployees (u : BatchId) (file : Bytes) :
    (ingestEmployees cfg u file).Outcomes Op.RaisesNoHttp (· = u) fun e => e.isHttp = false := by
  have hraises : ∀ {op : Op} (e : Exn), op.RaisesNoHttp (.error e) → e.isHttp = false :=
    fun e h => h e rfl
  exact Program.outcomes_call (fun _ _ => Program.outcomes_call (fun _ _ =>
    Program.outcomes_call (fun _ _ => rfl) hraises) hraises) hraises

/-- A poll lets a missing batch out, and what its calls raise. -/
theorem ends_getBatchStatus (b : BatchId) : Ends (getBatchStatus cfg b) (fun _ => True)
    fun e => e.isDomain = true → e = .batchNotFound b := by
  have hraises : ∀ e : Exn, e.isDomain = false → e.isDomain = true → e = .batchNotFound b :=
    fun e hfalse htrue => Bool.noConfusion (hfalse.symm.trans htrue)
  refine ends_call_bind hraises fun found => ?_
  rcases found with _ | batch
  · exact fun _ => rfl
  · -- a pending row is compared with the clock, and timed out if it is too old
    dsimp only
    split_ifs
    · refine ends_call_bind hraises fun now => ?_
      split_ifs
      · refine ends_call_bind hraises fun _ => ends_call_bind hraises fun _ => ?_
        refine Program.Outcomes.bind (ends_call_bind hraises fun found => ?_)
        rcases found with _ | batch
        · exact nofun
        · trivial
      · trivial
    · trivial

/-- The row of the batch is found. -/
def Op.Finds (b : BatchId) : (op : Op) → Except Exn (Reply op) → Prop
  | .batchGet b', r => b' = b → r ≠ .ok none
  | _, _ => True

/-- A poll that finds its batch lets no error of the code out. -/
theorem outcomes_getBatchStatus (b : BatchId) : (getBatchStatus cfg b).Outcomes
    (fun op r => op.May r ∧ op.Finds b r) (fun _ => True) fun e => e.isDomain = false := by
  have hraises : ∀ {op : Op} (e : Exn), op.May (.error e) ∧ op.Finds b (.error e) →
      e.isDomain = false := fun e h => h.1 e rfl
  refine Program.outcomes_call (fun found hfound => ?_) hraises
  rcases found with _ | batch
  · exact absurd rfl (hfound.2 rfl)
  · dsimp only
    split_ifs
    · refine Program.outcomes_call (fun now _ => ?_) hraises
      split_ifs
      · refine Program.outcomes_call (fun _ _ => ?_) hraises
        refine Program.outcomes_call (fun _ _ => ?_) hraises
        refine Program.Outcomes.bind (Program.outcomes_call (fun found hfound => ?_) hraises)
        rcases found with _ | batch
        · exact absurd rfl (hfound.2 rfl)
        · trivial
      · trivial
    · trivial

/-- A metrics request turns what its query raises into one error. -/
theorem ends_getMetric (metric : Metric) : Ends (getMetric metric) (fun _ => True)
    fun e => e.isDomain = true → ∃ cause, e = .analyticsUnavailable cause := by
  have hraises : ∀ e : Exn, e.isDomain = false → e.isDomain = true →
      ∃ cause, e = .analyticsUnavailable cause :=
    fun e hfalse htrue => Bool.noConfusion (hfalse.symm.trans htrue)
  refine ends_call_bind hraises fun cached => ?_
  rcases cached with _ | result
  · refine Program.Outcomes.bind (Program.Outcomes.tryExcept (ends_call
      (fun e _ => fun _ => ⟨e, rfl⟩) fun rows => ?_))
    exact ends_call_bind hraises fun _ => trivial
  · trivial

/-- What a request returns. -/
def Request.Replies : Request → Response → Prop
  | .ingest _ _ records, response =>
      ∃ reply, response = .ingested reply ∧ IngestReference.Reports records reply
  | .ingestEmployees u _, response => response = .accepted u
  | .getBatchStatus _, response => ∃ answer, response = .status answer
  | .getMetric _, response => ∃ rows, response = .metric rows
  | .processEmployees _, _ => True

/-- What a request raises. -/
def Request.Raises : Request → Exn → Prop
  | .ingest .., e => e.IsOutage
  | .ingestEmployees .., e => e.isDomain = false
  | .getBatchStatus b, e => e.isDomain = true → e = .batchNotFound b
  | .getMetric _, e => e.isDomain = true → ∃ cause, e = .analyticsUnavailable cause
  | .processEmployees _, _ => True

theorem ends_program (cfg : Settings) (request : Request) :
    Ends (request.program cfg) request.Replies request.Raises := by
  cases request with
  | ingest t u records =>
      have hexecute : Ends (HiringService.ingest t u records) (IngestReference.Reports records)
          Exn.IsOutage := by
        cases t <;> exact IngestReference.ends_execute
      exact Program.Outcomes.bind (hexecute.mono (fun reply hreply => ⟨reply, rfl, hreply⟩) fun _ => id)
  | ingestEmployees u file =>
      exact Program.Outcomes.bind ((ends_ingestEmployees u file).mono
        (fun _ hb => congrArg Response.accepted hb) fun _ => id)
  | processEmployees b => exact Program.outcomes_true _
  | getBatchStatus b =>
      exact Program.Outcomes.bind ((ends_getBatchStatus b).mono (fun answer _ => ⟨answer, rfl⟩)
        fun _ => id)
  | getMetric metric =>
      exact Program.Outcomes.bind ((ends_getMetric metric).mono (fun rows _ => ⟨rows, rfl⟩)
        fun _ => id)

end Requests

end HiringService
