import HiringService.Calls
import HiringService.Contracts.WriterCalls

/-!
# Employees rows and the metrics cache

`_process` deletes the metrics keys as its last step, while the rows of a file are committed chunk
by chunk, and row by row in the fallback. An exception in between skips the deletion, and
`mark_batch_failed` does not make up for it: then rows have been committed and cached metrics that
do not know them keep being served. Where this happens can be told from the calls of the run, their
replies and their faults (`Interrupted`).
-/

namespace HiringService

open Effect (Env Program Transition)

/-- The transaction inserts an employees row. -/
def Write.insertsEmployee : Write → Bool
  | .insertEmployees rows => !rows.isEmpty
  | _ => false

/-- The event is a commit that adds employees rows. -/
def Event.addsEmployees : Event → Bool
  | .commit _ ws => ws.any Write.insertsEmployee
  | .cacheDelete .. => false

/-- After every commit of employees rows the metrics keys are deleted. -/
def Invalidated (events : List Event) : Prop :=
  ∀ before event after, events = before ++ event :: after → event.addsEmployees = true →
    ∃ pid, Event.cacheDelete pid metricsCacheKeys ∈ after

/-- The call is a commit that takes effect: it returns, or only its acknowledgement is lost. -/
def TakesEffect {pid : Pid} (x : SharedCall pid) : Prop :=
  x.op = .commit ∧ (x.Returns ∨ ∃ f, x.choice.2.fault = some f ∧ f.effective = true ∧
    f.exn.isOperational = true)

/-- Among the calls, employees rows are inserted and then committed. -/
def CommitsEmployees {pid : Pid} (log : List (SharedCall pid)) : Prop :=
  ∃ before insert commit after, log = before ++ insert :: commit :: after ∧
    InsertsEmployees insert ∧ TakesEffect commit

/-- The call `x`, after the calls `before`, raises an exception that `_process` lets out: one that the
writer does not recover from, or any one in `finalize_batch`, which begins with `update_status`. -/
def Escapes {pid : Pid} (b : BatchId) (before : List (SharedCall pid)) (x : SharedCall pid) : Prop :=
  Fatal x ∨ (∃ e, x.reply = .error e) ∧
    ∃ y ∈ before ++ [x], ∃ errors, y.op = .statement (.updateStatus b .completed errors)

/-- A call raises out of `_process` when employees rows have been committed, possibly by that call,
and the metrics keys have not been deleted. -/
def Interrupted {pid : Pid} (b : BatchId) (log : List (SharedCall pid)) : Prop :=
  ∃ before x after, log = before ++ x :: after ∧ Escapes b before x ∧
    CommitsEmployees (before ++ [x]) ∧ ∀ y ∈ before ++ [x], y.op ≠ .cacheDelete metricsCacheKeys

/-- `_process` up to the deletion of the metrics keys. -/
def processUncached (b : BatchId) (cfg : Settings) : Prog Unit := do
  let allErrors ← ingestFile b cfg
  completeBatch b allErrors

/-- `_process` ends with the deletion. -/
theorem process_eq (b : BatchId) (cfg : Settings) :
    process b cfg = (processUncached b cfg).bind fun _ => invalidateMetrics := by
  unfold process processUncached finalizeBatch
  exact (Program.bind_assoc _ _ _).symm

section Events

variable {events events' : List Event}

/-- Without a deletion, the events are only right when no row was added. -/
theorem invalidated_iff_of_no_delete (h : ∀ event ∈ events, ∀ pid keys,
    event ≠ .cacheDelete pid keys) :
    Invalidated events ↔ ∀ event ∈ events, event.addsEmployees = false := by
  constructor
  · intro hinvalidated event hevent
    by_contra hadds
    obtain ⟨before, after, rfl⟩ := List.append_of_mem hevent
    obtain ⟨pid, hdelete⟩ := hinvalidated before event after rfl (by simpa using hadds)
    have hmem : Event.cacheDelete pid metricsCacheKeys ∈ before ++ event :: after :=
      List.mem_append_right _ (List.mem_cons_of_mem _ hdelete)
    exact h _ hmem pid _ rfl
  · intro hnone before event after hsplit hadds
    rw [hnone event (by rw [hsplit]; exact List.mem_append_right _ List.mem_cons_self)] at hadds
    cases hadds

/-- A deletion makes up for what was committed before it. -/
theorem invalidated_of_delete (pid : Pid) (h : ∀ event ∈ events', event.addsEmployees = false) :
    Invalidated (events ++ .cacheDelete pid metricsCacheKeys :: events') := by
  intro before event after hsplit hadds
  rcases Program.append_eq_append_cons hsplit with ⟨rest, -, rfl⟩ | ⟨mid, -, hlate⟩
  · exact ⟨pid, List.mem_append_right _ List.mem_cons_self⟩
  · -- the deletion adds nothing, and neither do the events after it
    rcases mid with _ | ⟨event', mid⟩
    · obtain ⟨rfl, -⟩ := List.cons_eq_cons.mp hlate
      cases hadds
    · obtain ⟨-, rfl⟩ := List.cons_eq_cons.mp hlate
      rw [h event (List.mem_append_right _ List.mem_cons_self)] at hadds
      cases hadds

end Events

/-! ## The events of a run -/

/-- The history has grown by `events`, of which `P` holds, since it was `h`. -/
def Grown (P : Event → Prop) (h : List Event) (w : World) : Prop :=
  ∃ events, w.history = h ++ events ∧ ∀ event ∈ events, P event

/-- The event is no deletion from the cache. -/
def Event.IsCommit : Event → Prop
  | .commit .. => True
  | .cacheDelete .. => False

/-- The event is a commit without employees rows. -/
def Event.IsHarmless (event : Event) : Prop := event.IsCommit ∧ event.addsEmployees = false

section Grown

variable {P P' : Event → Prop} {h : List Event} {w w' : World}

/-- No events yet. -/
theorem grown_refl (w : World) : Grown P w.history w := ⟨[], (List.append_nil _).symm, nofun⟩

/-- A step without an event. -/
theorem Grown.of_eq (hw : Grown P h w) (heq : w'.history = w.history) : Grown P h w' := by
  obtain ⟨events, hevents, hP⟩ := hw
  exact ⟨events, heq.trans hevents, hP⟩

/-- A step with one event. -/
theorem Grown.append (hw : Grown P h w) {event : Event}
    (heq : w'.history = w.history ++ [event]) (hevent : P event) : Grown P h w' := by
  obtain ⟨events, hevents, hP⟩ := hw
  refine ⟨events ++ [event], by rw [heq, hevents, List.append_assoc], fun e he => ?_⟩
  rcases List.mem_append.mp he with he | he
  · exact hP e he
  · rw [List.mem_singleton.mp he]
    exact hevent

end Grown

section Run

variable {pid : Pid} {b : BatchId} {cfg : Settings} {w w' : World}

/-- The environment of a process that shares the database with other transactions. -/
def sharedEnv (pid : Pid) : Env (machine pid) where
  rely s t := ∃ ws, t = s.foreign ws
  guar _ _ := True
  may _ _ := True
  mayBlock := True
  refl s := ⟨[], rfl⟩
  trans := by
    rintro s _ _ ⟨ws, rfl⟩ ⟨ws', rfl⟩
    exact ⟨ws ++ ws', by simp [World.foreign, World.db]⟩

/-- The history is out of the reach of others, and so is the session. -/
theorem stable_grown {P : Event → Prop} {h : List Event} {S : SessionPred} :
    (sharedEnv pid).Stable fun w => Grown P h w ∧
      S (w.server.own pid) (w.server.sessions pid) (w.slot pid) := by
  rintro s _ ⟨ws, rfl⟩ hs
  exact hs

/-- Others add no events. -/
theorem stable_harmless {h : List Event} : (sharedEnv pid).Stable (Grown Event.IsHarmless h) :=
  fun hst hs => (stable_grown (S := Unknown) hst ⟨hs, trivial⟩).1

/-- Nothing is pending but the status of a failed batch. -/
def MarksFailed (b : BatchId) : SessionPred := fun own _ _ =>
  ∀ e ∈ own, e.write = .updateBatch b .failed []

section Harmless

variable {h : List Event} {f : Unit → Prog Unit}

/-- A rollback is no event, and it leaves nothing pending unless it raises. -/
theorem ensures_rollback_harmless (hs : Grown Event.IsHarmless h w)
    (hok : ∀ t, Grown Event.IsHarmless h t → t.server.own pid = [] →
      (f ()).Ensures (sharedEnv pid) (fun _ t => Grown Event.IsHarmless h t) t) :
    (Uow.rollback.bind f).Ensures (sharedEnv pid) (fun _ t => Grown Event.IsHarmless h t) w := by
  refine ensures_call_bind trivial stable_harmless hs ?_
  intro t c r t' ht _ hexec
  obtain ⟨hlocal, -, -, hcases⟩ := exec_rollback hexec
  have hgrown : Grown Event.IsHarmless h t' := ht.of_eq hlocal.history
  refine ⟨trivial, ?_⟩
  cases r with
  | error e => exact Program.ensures_throw stable_harmless hgrown
  | ok _ =>
      obtain ⟨hnil, -⟩ := hcases.resolve_right fun h => nomatch h.1
      exact hok t' hgrown hnil

/-- The update of the status is pending, or it was lost. -/
theorem ensures_updateStatus_harmless (hs : Grown Event.IsHarmless h w)
    (hnil : w.server.own pid = [])
    (hok : ∀ t, Grown Event.IsHarmless h t →
      MarksFailed b (t.server.own pid) (t.server.sessions pid) (t.slot pid) →
      (f ()).Ensures (sharedEnv pid) (fun _ t => Grown Event.IsHarmless h t) t) :
    ((Uow.updateStatus b .failed none).bind f).Ensures (sharedEnv pid)
      (fun _ t => Grown Event.IsHarmless h t) w := by
  refine ensures_call_bind trivial (stable_grown (S := Writing [])) ⟨hs, writing_nil.mpr hnil⟩ ?_
  intro t c r t' ht _ hexec
  obtain ⟨hlocal, -, -, -, hcases⟩ := exec_statement hexec
  have hgrown : Grown Event.IsHarmless h t' := ht.1.of_eq hlocal.history
  refine ⟨trivial, ?_⟩
  cases r with
  | error e => exact Program.ensures_throw stable_harmless hgrown
  | ok _ =>
      refine hok t' hgrown fun e he => ?_
      rcases hcases with ⟨-, hown⟩ | ⟨hown, -⟩
      · rw [hown, writing_nil.mp ht.2] at he
        rw [List.mem_singleton.mp he]
        rfl
      · rw [hown, writing_nil.mp ht.2] at he
        cases he

/-- What is committed is the status, also where `commit` raises after it has committed. -/
theorem ensures_commit_harmless (hs : Grown Event.IsHarmless h w)
    (hmarks : MarksFailed b (w.server.own pid) (w.server.sessions pid) (w.slot pid)) :
    Uow.commit.Ensures (sharedEnv pid) (fun _ t => Grown Event.IsHarmless h t) w := by
  refine ensures_of_bind_pure (ensures_call_bind trivial (stable_grown (S := MarksFailed b))
    ⟨hs, hmarks⟩ ?_)
  intro t c r t' ht _ hexec
  have hgrown : Grown Event.IsHarmless h t' := by
    rcases exec_commit hexec with ⟨hpublished, -⟩ | ⟨-, -, hlocal, -⟩
    · refine ht.1.append hpublished.history ⟨trivial, List.any_eq_false.mpr fun wr hwr => ?_⟩
      obtain ⟨e, he, rfl⟩ := List.mem_map.mp hwr
      rw [ht.2 e he]
      exact Bool.false_ne_true
    · exact ht.1.of_eq hlocal.history
  refine ⟨trivial, ?_⟩
  cases r with
  | ok _ => exact Program.ensures_pure stable_harmless hgrown
  | error e => exact Program.ensures_throw stable_harmless hgrown

/-- Whatever happens in `mark_batch_failed`, it commits nothing but the status. -/
theorem ensures_markBatchFailed_harmless (hs : Grown Event.IsHarmless h w) :
    (markBatchFailed b).Ensures (sharedEnv pid) (fun _ t => Grown Event.IsHarmless h t) w := by
  have hbody : (do
      Uow.rollback
      Uow.updateStatus b .failed none
      Uow.commit : Prog Unit).Ensures (sharedEnv pid)
      (fun _ t => Grown Event.IsHarmless h t) w :=
    ensures_rollback_harmless hs fun _ h₁ hnil =>
      ensures_updateStatus_harmless h₁ hnil fun _ h₂ hmarks => ensures_commit_harmless h₂ hmarks
  refine Program.Ensures.tryExcept (hbody.mono ?_)
  intro r t ht
  cases r with
  | ok _ => exact Program.ensures_pure stable_harmless ht
  | error e =>
      -- the handler only rolls back
      refine ensures_of_bind_pure (ensures_rollback_harmless ht fun _ h₁ _ => ?_)
      exact Program.ensures_pure stable_harmless h₁

end Harmless

/-! ## What calls add -/

/-- The call adds employees rows to the database. -/
def Adds (x : SharedCall pid) : Prop :=
  ∃ event, x.after.history = x.before.history ++ [event] ∧ event.addsEmployees = true

section Calls

variable {x : SharedCall pid}

/-- A call is at most one event. -/
theorem history_of_step
    (h : (sharedMachine pid).step x.choice x.before x.op = some (x.reply, x.after)) :
    ∃ events, x.after.history = x.before.history ++ events ∧
      ((∃ event ∈ events, event.addsEmployees = true) ↔ Adds x) ∧
      ((∀ keys, x.op ≠ .cacheDelete keys) → ∀ event ∈ events, event.IsCommit) := by
  have hone : ∀ event, x.after.history = x.before.history ++ [event] →
      ((∃ event' ∈ [event], event'.addsEmployees = true) ↔ Adds x) := by
    intro event hevent
    constructor
    · rintro ⟨event', hmem, hadds⟩
      exact ⟨event', List.mem_singleton.mp hmem ▸ hevent, hadds⟩
    · rintro ⟨event', hevent', hadds⟩
      exact ⟨event', List.append_cancel_left (hevent.symm.trans hevent') ▸
        List.mem_singleton_self _, hadds⟩
  rcases (exec_called (show exec pid x.choice.2 (x.before.foreign x.choice.1) x.op = _ from h)).history
    with hsame | ⟨-, hpublished⟩ | ⟨keys, hop, hevent⟩
  · refine ⟨[], hsame.trans (List.append_nil _).symm, ⟨by simp, ?_⟩, nofun⟩
    rintro ⟨event, hevent, -⟩
    have hlength := congrArg List.length (hevent.symm.trans hsame)
    rw [List.length_append, List.length_singleton] at hlength
    exact absurd hlength (Nat.succ_ne_self _)
  · refine ⟨_, hpublished.history, hone _ hpublished.history, fun _ event hmem => ?_⟩
    rw [List.mem_singleton.mp hmem]
    trivial
  · exact ⟨_, hevent, hone _ hevent, fun hnot => absurd hop (hnot keys)⟩

/-- Rows are only added by a commit that takes effect. -/
theorem takesEffect_of_adds
    (h : (sharedMachine pid).step x.choice x.before x.op = some (x.reply, x.after)) (hadds : Adds x) :
    TakesEffect x ∧ ∃ e ∈ x.before.server.own pid, e.write.insertsEmployee = true := by
  obtain ⟨op, c, before, r, after⟩ := x
  obtain ⟨event, hevent, hemployees⟩ := hadds
  have hexec : exec pid c.2 (before.foreign c.1) op = some (r, after) := h
  have hgrown : after.history ≠ before.history := by
    intro hsame
    have hlength := congrArg List.length (hevent.symm.trans hsame)
    rw [List.length_append, List.length_singleton] at hlength
    exact absurd hlength (Nat.succ_ne_self _)
  rcases (exec_called hexec).history with hsame | ⟨rfl, -⟩ | ⟨keys, -, hdelete⟩
  · exact absurd hsame hgrown
  · rcases exec_commit hexec with ⟨hpublished, hr⟩ | ⟨-, -, hlocal, -⟩
    · refine ⟨⟨rfl, hr.imp (fun hr => ⟨(), hr⟩) fun ⟨f, hf, heffective, _, hlost⟩ =>
        ⟨f, hf, heffective, hlost⟩⟩, ?_⟩
      obtain rfl := List.singleton_inj.mp (List.append_cancel_left
        (hevent.symm.trans hpublished.history))
      obtain ⟨wr, hwr, hinserts⟩ := List.any_eq_true.mp hemployees
      obtain ⟨e, he, rfl⟩ := List.mem_map.mp hwr
      exact ⟨e, he, hinserts⟩
    · exact absurd hlocal.history hgrown
  · obtain rfl := List.singleton_inj.mp (List.append_cancel_left (hevent.symm.trans hdelete))
    cases hemployees

/-- An insert of employees that is carried out has rows. -/
theorem insertsEmployee_of_planned {rows : List EmployeeValues} {w : World}
    (h : (Statement.insertEmployees rows).Planned pid w) :
    (Write.insertEmployees rows).insertsEmployee = true := by
  obtain ⟨sql, hplan⟩ := h
  cases rows with
  | nil => cases hplan
  | cons row rows => rfl

/-- A commit that takes effect publishes the transaction, if the session can go on. -/
theorem published_of_takesEffect {c : Choice} {r : Except Exn Unit}
    (h : exec pid c w .commit = some (r, w')) (hw : (w.server.sessions pid).failed = false)
    (heffect : (∃ a, r = .ok a) ∨
      ∃ f, c.fault = some f ∧ f.effective = true ∧ f.exn.isOperational = true) :
    Published pid w w' := by
  rcases heffect with ⟨a, rfl⟩ | ⟨f, hf, heffective, hlost⟩
  · rcases exec_commit h with ⟨hpublished, -⟩ | ⟨e, he, -⟩
    · exact hpublished
    · cases he
  · obtain ⟨-, rfl⟩ := exec_of_fault hf h
    rw [disturbed, if_pos heffective, if_pos ⟨hlost, by rw [hw]; exact Bool.false_ne_true⟩]
    exact published_publish.failIf

/-- An insert that returns and a commit of it that takes effect add rows. -/
theorem adds_of_commit {insert : SharedCall pid}
    (hinsert : (sharedMachine pid).step insert.choice insert.before insert.op =
      some (insert.reply, insert.after))
    (h : (sharedMachine pid).step x.choice x.before x.op = some (x.reply, x.after))
    (hnext : insert.after = x.before) (hinserts : InsertsEmployees insert) (heffect : TakesEffect x) :
    Adds x := by
  obtain ⟨op, c, w₀, r, w₁⟩ := insert
  obtain ⟨op', c', w₂, r', w₃⟩ := x
  obtain ⟨⟨rows, hop⟩, a, hr⟩ := hinserts
  obtain ⟨hop', hreply⟩ := heffect
  obtain rfl : op = _ := hop
  obtain rfl : op' = _ := hop'
  obtain rfl : w₁ = w₂ := hnext
  have hadd : exec pid c.2 (w₀.foreign c.1) (.statement (.insertEmployees rows)) =
      some (.ok a, w₁) := hinsert.trans (congrArg (fun r => some (r, w₁)) hr)
  have hrunning : (w₁.server.sessions pid).failed = false :=
    running_of_exec_ok (show Op.NeedsSession (.statement _) from trivial) hadd
  have hpublished : Published pid (w₁.foreign c'.1) w₃ := published_of_takesEffect h hrunning hreply
  obtain ⟨-, -, -, ⟨hplanned, hown⟩ | ⟨-, e, he⟩⟩ := exec_insert (insertEmployees_inserts rows) hadd
  · have hmem : Write.insertEmployees rows ∈ (w₁.foreign c'.1).server.writes pid := by
      show _ ∈ (w₁.server.own pid).map Txn.Entry.write
      rw [hown, List.map_append]
      exact List.mem_append_right _ (List.mem_singleton_self _)
    exact ⟨_, hpublished.history,
      List.any_eq_true.mpr ⟨_, hmem, insertsEmployee_of_planned hplanned⟩⟩
  · cases he

end Calls

section Logs

variable {α : Type} {p : Prog α} {log : List (SharedCall pid)} {out : Except Exn α}

/-- The events of a run are those of its calls. -/
theorem history_of_traces (h : p.Traces (sharedMachine pid) w log out w') :
    ∃ events, w'.history = w.history ++ events ∧
      ((∃ event ∈ events, event.addsEmployees = true) ↔ ∃ x ∈ log, Adds x) ∧
      ((∀ x ∈ log, ∀ keys, x.op ≠ .cacheDelete keys) → ∀ event ∈ events, event.IsCommit) := by
  induction h with
  | pure => exact ⟨[], (List.append_nil _).symm, by simp, nofun⟩
  | throw => exact ⟨[], (List.append_nil _).symm, by simp, nofun⟩
  | @call i k c r s s₁ s' log out hstep hrest ih =>
      obtain ⟨events, hevents, hadds, hcommits⟩ :=
        history_of_step (x := (⟨i, c, s, r, s₁⟩ : SharedCall pid)) hstep
      obtain ⟨events', hevents', hadds', hcommits'⟩ := ih
      refine ⟨events ++ events', ?_, ?_, fun hnot event hevent => ?_⟩
      · rw [hevents', ← List.append_assoc]
        exact congrArg (· ++ events') hevents
      · constructor
        · rintro ⟨event, hevent, hemployees⟩
          rcases List.mem_append.mp hevent with hevent | hevent
          · exact ⟨_, List.mem_cons_self, hadds.mp ⟨event, hevent, hemployees⟩⟩
          · obtain ⟨x, hx, hx'⟩ := hadds'.mp ⟨event, hevent, hemployees⟩
            exact ⟨x, List.mem_cons_of_mem _ hx, hx'⟩
        · rintro ⟨x, hx, hx'⟩
          rcases List.mem_cons.mp hx with rfl | hx
          · obtain ⟨event, hevent, hemployees⟩ := hadds.mpr hx'
            exact ⟨event, List.mem_append_left _ hevent, hemployees⟩
          · obtain ⟨event, hevent, hemployees⟩ := hadds'.mpr ⟨x, hx, hx'⟩
            exact ⟨event, List.mem_append_right _ hevent, hemployees⟩
      · rcases List.mem_append.mp hevent with hevent | hevent
        · exact hcommits (hnot _ List.mem_cons_self) event hevent
        · exact hcommits' (fun x hx => hnot x (List.mem_cons_of_mem _ hx)) event hevent

/-- Employees rows that are inserted and committed are added. -/
theorem adds_of_commitsEmployees (h : p.Traces (sharedMachine pid) w log out w')
    (hcommits : CommitsEmployees log) : ∃ x ∈ log, Adds x := by
  obtain ⟨before, insert, commit, after, rfl, hinserts, heffect⟩ := hcommits
  exact ⟨commit, by simp, adds_of_commit (h.step insert (by simp)) (h.step commit (by simp))
    h.after_eq_before hinserts heffect⟩

/-- Rows that have been committed stay committed. -/
theorem CommitsEmployees.append (h : CommitsEmployees log) (log' : List (SharedCall pid)) :
    CommitsEmployees (log ++ log') := by
  obtain ⟨before, insert, commit, after, rfl, hboth⟩ := h
  exact ⟨before, insert, commit, after ++ log', by simp, hboth⟩

/-- A rollback commits nothing. -/
theorem CommitsEmployees.of_append {after : List (SharedCall pid)}
    (h : CommitsEmployees (log ++ after)) (hafter : ∀ y ∈ after, y.op = .rollback) :
    CommitsEmployees log := by
  obtain ⟨before, insert, commit, rest, hlog, hinserts, heffect⟩ := h
  rw [← List.singleton_append, ← List.append_assoc] at hlog
  rcases Program.append_eq_append_cons hlog with ⟨rest', rfl, -⟩ | ⟨mid, -, rfl⟩
  · exact ⟨before, insert, commit, rest', by simp, hinserts, heffect⟩
  · cases (hafter commit (by simp)).symm.trans heffect.1

end Logs

/-! ## The calls of `_process` -/

section Process

variable {log : List (SharedCall pid)}

theorem uses_processUncached : (processUncached b cfg).Uses (Op.OfWriter b) :=
  Program.Uses.bind (uses_ingestFile.mono fun _ => Op.OfFile.ofWriter) uses_completeBatch

/-- A single call commits no employees rows. -/
theorem not_commitsEmployees_singleton (x : SharedCall pid) : ¬ CommitsEmployees [x] := by
  rintro ⟨before, insert, commit, after, hlog, -⟩
  have hlength := congrArg List.length hlog
  simp only [List.length_append, List.length_cons, List.length_nil] at hlength
  omega

/-- The calls of the part of `_process` that writes employees. It raises if a call raises what the
writer does not recover from, and if it raises after a commit of rows, such a call is the cause. -/
structure FileCourse (log : List (SharedCall pid)) (out : Except Exn (List String)) (w' : World) :
    Prop where
  commits : CommitsInserts log
  raises : (∃ x ∈ log, Fatal x) → ∃ e, out = .error e
  cause : (∃ e, out = .error e) → CommitsEmployees log →
    ∃ before x after, log = before ++ x :: after ∧ Fatal x ∧ ∀ y ∈ after, y.op = .rollback
  clean : ∀ a, out = .ok a → w'.server.own pid = []

/-- A download, and then the course of the writer. -/
theorem fileCourse_of_traces {out : Except Exn (List String)}
    (h : (ingestFile b cfg).Traces (sharedMachine pid) w log out w')
    (hw : w.server.own pid = []) : FileCourse log out w' := by
  -- the download is a single call
  have hdownload : ∀ {out log w₁}, (downloadFile (employeesKey cfg b)).Traces (sharedMachine pid) w
      log out w₁ → ∃ c r, log = [⟨.streamFile (employeesKey cfg b), c, w, r, w₁⟩] ∧
        w₁.server.own pid = [] ∧ ∀ a, out = .ok a → ∃ a', r = .ok a' := by
    intro out log w₁ h
    obtain ⟨r, hcall, rfl⟩ := h.map_inv
    obtain ⟨c, hstep, rfl⟩ := hcall.request_inv
    refine ⟨c, r, rfl, ?_, fun a ha => ?_⟩
    · exact (exec_streamFile (show exec pid c.2 (w.foreign c.1) _ = _ from hstep)).2.1.trans hw
    · cases r with
      | error e => cases ha
      | ok a' => exact ⟨a', rfl⟩
  rcases h.bind_inv with ⟨raw, log₁, log₂, w₁, rfl, h₁, h₂⟩ | ⟨e, rfl, h₁⟩
  rotate_left
  · obtain ⟨c, r, rfl, -, -⟩ := hdownload h₁
    exact ⟨commitsInserts_nil.snoc Op.noConfusion, fun _ => ⟨e, rfl⟩,
      fun _ hcommits => absurd hcommits (not_commitsEmployees_singleton _), nofun⟩
  obtain ⟨c, r, rfl, hw₁, hreturns⟩ := hdownload h₁
  obtain ⟨a, rfl⟩ := hreturns raw rfl
  have hstream : CommitsInserts
      ([⟨.streamFile (employeesKey cfg b), c, w, .ok a, w₁⟩] : List (SharedCall pid)) :=
    commitsInserts_nil.snoc Op.noConfusion
  have hraised : ∀ e, FileCourse
      ([⟨.streamFile (employeesKey cfg b), c, w, .ok a, w₁⟩] ++ []) (.error e) w' := fun e =>
    ⟨hstream, fun _ => ⟨e, rfl⟩,
      fun _ hcommits => absurd hcommits (not_commitsEmployees_singleton _), nofun⟩
  -- the file cannot be read, or the size is refused
  rcases hparse : parseEmployees raw with e | ⟨records, parseErrors⟩
  · rw [hparse] at h₂
    cases h₂
    exact hraised e
  rw [hparse] at h₂
  have h₃ : (writeRecords b cfg.employeeChunkSize parseErrors records).Traces _ w₁ log₂ out w' := h₂
  rcases hchunks : iterChunks records cfg.employeeChunkSize with e | chunks
  · rw [writeRecords, hchunks] at h₃
    cases h₃
    exact hraised e
  rw [writeRecords, hchunks] at h₃
  have hcourse := (course_of_returns hstream (a := a) (by simp [Transition.Returns]) hw₁).append
    (course_writeChunks h₃ hw₁)
  refine ⟨hcourse.commits, hcourse.raises.mp, fun hout _ => ?_, hcourse.clean⟩
  obtain ⟨x, hx, hfatal⟩ := hcourse.raises.mpr hout
  obtain ⟨before, after, hlog⟩ := List.append_of_mem hx
  exact ⟨before, x, after, hlog, hfatal, hcourse.rest before x after hlog hfatal⟩

/-- The transaction of `finalize_batch`: it begins with `update_status`, adds no rows, and ends with
the first call that raises. -/
structure EndCourse (b : BatchId) (log : List (SharedCall pid)) (out : Except Exn Unit) : Prop where
  begins : ∃ update rest errors, log = update :: rest ∧
    update.op = .statement (.updateStatus b .completed errors)
  adds : ∀ x ∈ log, ¬ Adds x
  raises : (∃ x ∈ log, ∃ e, x.reply = .error e) ↔ ∃ e, out = .error e
  last : (∃ e, out = .error e) → ∃ before x, log = before ++ [x] ∧ ∃ e, x.reply = .error e

/-- `update_status` and its commit. What is committed is the status, and no rows. -/
theorem endCourse_of_traces {errors : List String} {out : Except Exn Unit}
    (h : (completeBatch b errors).Traces (sharedMachine pid) w log out w')
    (hw : w.server.own pid = []) : EndCourse b log out := by
  have hsteps := h.step
  obtain ⟨c₁, r₁, w₁, rest₁, hupdate, rfl, hrest⟩ := h.request_bind_inv
  have hfirst : ¬ Adds (⟨.statement (.updateStatus b .completed errors), c₁, w, r₁, w₁⟩ :
      SharedCall pid) := fun hadds => Op.noConfusion (takesEffect_of_adds hupdate hadds).1.1
  rcases hrest with ⟨_, rfl, h₁⟩ | ⟨e, rfl, rfl, rfl, rfl⟩
  rotate_left
  · refine ⟨⟨_, [], errors, rfl, rfl⟩, ?_, ⟨fun _ => ⟨e, rfl⟩, fun _ => ?_⟩, fun _ => ?_⟩
    · exact fun x hx => List.mem_singleton.mp hx ▸ hfirst
    · exact ⟨_, List.mem_singleton_self _, e, rfl⟩
    · exact ⟨[], _, rfl, e, rfl⟩
  obtain ⟨c₂, hcommit, rfl⟩ := h₁.request_inv
  have hsecond : ¬ Adds (⟨.commit, c₂, w₁, out, w'⟩ : SharedCall pid) := by
    intro hadds
    -- nothing but the update is pending
    obtain ⟨-, e, he, hinserts⟩ := takesEffect_of_adds hcommit hadds
    obtain ⟨-, -, -, -, ⟨-, hown⟩ | ⟨hown, -⟩⟩ :=
      exec_statement (show exec pid c₁.2 (w.foreign c₁.1) _ = _ from hupdate)
    · rw [show w₁.server.own pid = _ from hown, show (w.foreign c₁.1).server.own pid = [] from hw,
        List.nil_append] at he
      rw [List.mem_singleton.mp he] at hinserts
      cases hinserts
    · rw [show w₁.server.own pid = _ from hown, show (w.foreign c₁.1).server.own pid = [] from hw] at he
      cases he
  refine ⟨⟨_, _, errors, rfl, rfl⟩, ?_, ⟨?_, ?_⟩, fun hout => ?_⟩
  · intro x hx
    rcases List.mem_cons.mp hx with rfl | hx
    · exact hfirst
    · exact List.mem_singleton.mp hx ▸ hsecond
  · rintro ⟨x, hx, e, he⟩
    rcases List.mem_cons.mp hx with rfl | hx
    · cases he
    · obtain rfl := List.mem_singleton.mp hx
      exact ⟨e, he⟩
  · exact fun ⟨e, he⟩ => ⟨_, List.mem_cons_of_mem _ (List.mem_singleton_self _), e, he⟩
  · exact ⟨[_], _, rfl, hout⟩

/-- The calls of `_process` before the deletion of the metrics keys. Rows are added by inserts that are
committed, it raises if the exception of a call escapes, and if it raises after a commit of rows, such
an exception is the cause. -/
structure ProcessCourse (b : BatchId) (log : List (SharedCall pid)) (out : Except Exn Unit) :
    Prop where
  adds : (∃ x ∈ log, Adds x) → CommitsEmployees log
  raises : ∀ before x after, log = before ++ x :: after → Escapes b before x → ∃ e, out = .error e
  cause : (∃ e, out = .error e) → CommitsEmployees log →
    ∃ before x after, log = before ++ x :: after ∧ Escapes b before x ∧ ∀ y ∈ after, y.op = .rollback

/-- Rows that have been added were inserted right before. -/
theorem CommitsInserts.commitsEmployees (h : CommitsInserts log) {x : SharedCall pid} (hx : x ∈ log)
    (heffect : TakesEffect x) : CommitsEmployees log := by
  obtain ⟨before, after, rfl⟩ := List.append_of_mem hx
  obtain ⟨before', insert, rfl, hinsert⟩ := h before x after rfl heffect.1
  exact ⟨before', insert, x, after, by simp, hinsert, heffect⟩

/-- The writer, and then the end of the batch. -/
theorem processCourse_of_traces {out : Except Exn Unit}
    (h : (processUncached b cfg).Traces (sharedMachine pid) w log out w')
    (hw : w.server.own pid = []) : ProcessCourse b log out := by
  have hsteps := h.step
  rcases h.bind_inv with ⟨errors, log₁, log₂, w₁, rfl, h₁, h₂⟩ | ⟨e, rfl, h₁⟩
  rotate_left
  · have hfile := fileCourse_of_traces h₁ hw
    refine ⟨?_, fun _ _ _ _ _ => ⟨e, rfl⟩, fun _ hcommits => ?_⟩
    · rintro ⟨x, hx, hadds⟩
      exact hfile.commits.commitsEmployees hx (takesEffect_of_adds (hsteps x hx) hadds).1
    · obtain ⟨before, x, after, hlog, hfatal, hafter⟩ := hfile.cause ⟨e, rfl⟩ hcommits
      exact ⟨before, x, after, hlog, Or.inl hfatal, hafter⟩
  have hfile := fileCourse_of_traces h₁ hw
  have hend := endCourse_of_traces h₂ (hfile.clean _ rfl)
  refine ⟨?_, fun before x after hlog hescapes => ?_, fun hout _ => ?_⟩
  · rintro ⟨x, hx, hadds⟩
    have heffect := (takesEffect_of_adds (hsteps x hx) hadds).1
    rcases List.mem_append.mp hx with hx | hx
    · exact (hfile.commits.commitsEmployees hx heffect).append log₂
    · exact absurd hadds (hend.adds x hx)
  · rcases Program.append_eq_append_cons hlog with ⟨rest, hfirst, -⟩ | ⟨mid, -, hsecond⟩
    · -- in the file part nothing escapes but what the writer does not recover from
      rcases hescapes with hfatal | ⟨-, y, hy, errors, hop⟩
      · obtain ⟨e, he⟩ := hfile.raises ⟨x, hfirst ▸ List.mem_append_right _ List.mem_cons_self, hfatal⟩
        cases he
      · have hmem : y ∈ log₁ := by
          rw [hfirst]
          rcases List.mem_append.mp hy with hy | hy
          · exact List.mem_append_left _ hy
          · exact List.mem_append_right _ (List.mem_singleton.mp hy ▸ List.mem_cons_self)
        have hfile : y.op.OfFile b := h₁.uses uses_ingestFile y hmem
        rw [hop] at hfile
        exact hfile.elim
    · have hmem : x ∈ log₂ := hsecond ▸ List.mem_append_right _ List.mem_cons_self
      rcases hescapes with ⟨e, he, -⟩ | ⟨⟨e, he⟩, -⟩
      · exact hend.raises.mp ⟨x, hmem, e, he⟩
      · exact hend.raises.mp ⟨x, hmem, e, he⟩
  · obtain ⟨before, x, hlog, hraised⟩ := hend.last hout
    obtain ⟨update, rest, errors', hbegins, hop⟩ := hend.begins
    refine ⟨log₁ ++ before, x, [], by rw [hlog, List.append_assoc], Or.inr ⟨hraised, update, ?_,
      errors', hop⟩, List.forall_mem_nil _⟩
    rw [List.append_assoc, ← hlog, hbegins]
    exact List.mem_append_right _ List.mem_cons_self

end Process

/-! ## When the cache is invalidated -/

/-- The handler of `stream_and_process`. -/
def failAndRaise (b : BatchId) (exc : Exn) : Prog Unit :=
  (markBatchFailed b).bind fun _ => .throw exc

/-- The handler of `stream_and_process` adds only harmless events. -/
theorem grown_of_failAndRaise {exc : Exn} {log : List (SharedCall pid)} {out : Except Exn Unit}
    (h : (failAndRaise b exc).Traces (sharedMachine pid) w log out w') :
    Grown Event.IsHarmless w.history w' ∧ ∀ x ∈ log, x.op.OfWriter b := by
  refine ⟨?_, h.uses (Program.Uses.bind uses_markBatchFailed fun _ => trivial)⟩
  have hensures := @ensures_markBatchFailed_harmless pid b w _ (grown_refl w)
  rcases h.bind_inv with ⟨_, log₁, log₂, w₁, rfl, h₁, h₂⟩ | ⟨e, rfl, h₁⟩
  · cases h₂
    exact hensures.of_traces (fun _ _ => ⟨_, rfl⟩) (fun _ _ => trivial) h₁
  · exact hensures.of_traces (fun _ _ => ⟨_, rfl⟩) (fun _ _ => trivial) h₁

section Ends

variable {log log₁ log₂ : List (SharedCall pid)} {w₁ w₂ : World} {events : List Event}

/-- Where `_process` reaches the deletion, the run is right, and it has not been interrupted. -/
theorem invalidated_iff_of_reached {c : List Write × Choice} {r : Except Exn Unit}
    (h : (processUncached b cfg).Traces (sharedMachine pid) w log₁ (.ok ()) w₁)
    (hw : w.server.own pid = [])
    (hstep : (sharedMachine pid).step c w₁ (.cacheDelete metricsCacheKeys) = some (r, w₂))
    (hafter : Grown Event.IsHarmless w₂.history w') (hevents : w'.history = w.history ++ events) :
    Invalidated events ↔
      ¬ Interrupted b (log₁ ++ ⟨.cacheDelete metricsCacheKeys, c, w₁, r, w₂⟩ :: log₂) := by
  have hdelete : w₂.history = w₁.history ++ [.cacheDelete pid metricsCacheKeys] :=
    (exec_cacheDelete (show exec pid c.2 (w₁.foreign c.1) (.cacheDelete _) = _ from hstep)).2.1
  refine iff_of_true ?_ ?_
  · obtain ⟨events₁, hevents₁, -⟩ := history_of_traces h
    obtain ⟨events₂, hevents₂, hharmless⟩ := hafter
    obtain rfl : events = events₁ ++ .cacheDelete pid metricsCacheKeys :: events₂ := by
      refine List.append_cancel_left (hevents.symm.trans ?_)
      rw [hevents₂, hdelete, hevents₁]
      simp
    exact invalidated_of_delete pid fun event hevent => (hharmless event hevent).2
  · rintro ⟨before, x, after, hlog, hescapes, -, hnone⟩
    rcases Program.append_eq_append_cons hlog with ⟨rest, hfirst, -⟩ | ⟨mid, rfl, hsecond⟩
    · obtain ⟨e, he⟩ := (processCourse_of_traces h hw).raises before x rest hfirst hescapes
      cases he
    · refine hnone ⟨.cacheDelete metricsCacheKeys, c, w₁, r, w₂⟩ ?_ rfl
      rcases mid with _ | ⟨y, mid⟩
      · obtain ⟨rfl, -⟩ := List.cons_eq_cons.mp hsecond
        simp
      · obtain ⟨rfl, -⟩ := List.cons_eq_cons.mp hsecond
        simp

/-- Where `_process` raises before the deletion, the run is right unless it has been interrupted. -/
theorem invalidated_iff_of_raised {e : Exn} {out : Except Exn Unit}
    (hrun : (streamAndProcess b cfg).Traces (sharedMachine pid) w (log₁ ++ log₂) out w')
    (h : (processUncached b cfg).Traces (sharedMachine pid) w log₁ (.error e) w₁)
    (hw : w.server.own pid = [])
    (hhandler : (failAndRaise b e).Traces (sharedMachine pid) w₁ log₂ out w')
    (hevents : w'.history = w.history ++ events) :
    Invalidated events ↔ ¬ Interrupted b (log₁ ++ log₂) := by
  have hprocess := processCourse_of_traces h hw
  obtain ⟨⟨events₂, hevents₂, hharmless⟩, hwriter₂⟩ := grown_of_failAndRaise hhandler
  obtain ⟨events₁, hevents₁, hadds, hcommits⟩ := history_of_traces h
  have hwriter₁ := h.uses uses_processUncached
  obtain rfl : events = events₁ ++ events₂ := by
    refine List.append_cancel_left (hevents.symm.trans ?_)
    rw [hevents₂, hevents₁, List.append_assoc]
  -- nothing is deleted, so the run is right if it adds no rows
  rw [invalidated_iff_of_no_delete]
  rotate_left
  · rintro _ hevent pid keys rfl
    rcases List.mem_append.mp hevent with hevent | hevent
    · exact hcommits (fun x hx => (hwriter₁ x hx).ne_cacheDelete) _ hevent
    · exact (hharmless _ hevent).1
  constructor
  · rintro hnone ⟨before, x, after, hlog, -, hemployees, -⟩
    have hall : CommitsEmployees (log₁ ++ log₂) := by
      rw [hlog, List.append_cons]
      exact hemployees.append after
    obtain ⟨events, hsame, hadds', -⟩ := history_of_traces hrun
    obtain rfl := List.append_cancel_left (hsame.symm.trans hevents)
    obtain ⟨event, hevent, htrue⟩ := hadds'.mpr (adds_of_commitsEmployees hrun hall)
    cases (hnone event hevent).symm.trans htrue
  · intro hnot event hevent
    rcases List.mem_append.mp hevent with hevent | hevent
    rotate_left
    · exact (hharmless event hevent).2
    by_contra htrue
    have hemployees := hprocess.adds (hadds.mp ⟨event, hevent, by simpa using htrue⟩)
    obtain ⟨before, x, after, rfl, hescapes, hafter⟩ := hprocess.cause ⟨e, rfl⟩ hemployees
    refine hnot ⟨before, x, after ++ log₂, by simp, hescapes, ?_, fun y hy => ?_⟩
    · refine CommitsEmployees.of_append ?_ hafter
      rwa [List.append_assoc]
    · refine (hwriter₁ y ?_).ne_cacheDelete _
      rcases List.mem_append.mp hy with hy | hy
      · exact List.mem_append_left _ hy
      · exact List.mem_append_right _ (List.mem_singleton.mp hy ▸ List.mem_cons_self)

end Ends

/-- The run of a worker adds no employees rows, or it deletes the metrics keys after it has added the
last of them, if and only if it is not interrupted: no call raises out of `_process` after a commit of
rows and before the deletion. Any call may raise, and other transactions may commit in between. -/
theorem streamAndProcess_invalidates_iff (hw : w.Unshared pid) (hown : w.server.own pid = [])
    (sched : ℕ → List Write × Choice) :
    ∃ log out w' events, (streamAndProcess b cfg).Traces (sharedMachine pid) w log out w' ∧
      log.map Transition.choice = (List.range log.length).map sched ∧
      w'.history = w.history ++ events ∧ (Invalidated events ↔ ¬ Interrupted b log) := by
  obtain ⟨out, m, w', hrun, -⟩ := run_shared_total (streamAndProcess b cfg) sched hw
  obtain ⟨log, h, hchoices⟩ := Program.traces_of_run hrun
  obtain ⟨events, hevents, -⟩ := history_of_traces h
  refine ⟨log, out, w', events, h, hchoices, hevents, ?_⟩
  have htry : ((process b cfg).tryExcept (failAndRaise b)).Traces (sharedMachine pid) w log out w' := h
  rw [process_eq] at htry
  rcases htry.tryExcept_inv with ⟨_, rfl, hprocess⟩ | ⟨e, log₁, log₂, w₁, rfl, hprocess, hhandler⟩
  · -- `_process` returns: it has deleted the keys
    rcases hprocess.bind_inv with ⟨_, log₁, log₂, w₁, rfl, h₁, h₂⟩ | ⟨e, he, -⟩
    · obtain ⟨c, hstep, rfl⟩ := h₂.request_inv
      exact invalidated_iff_of_reached h₁ hown hstep (grown_refl w') hevents
    · cases he
  · rcases hprocess.bind_inv with ⟨_, log₃, log₄, w₃, rfl, h₁, h₂⟩ | ⟨e', he, h₁⟩
    · -- the deletion raises
      obtain ⟨c, hstep, rfl⟩ := h₂.request_inv
      rw [List.append_assoc]
      exact invalidated_iff_of_reached h₁ hown hstep (grown_of_failAndRaise hhandler).1 hevents
    · cases he
      exact invalidated_iff_of_raised h h₁ hown hhandler hevents

end Run

/-- Two records with the same id, of which only the first can be inserted. The bulk insert is refused,
the first row is committed, and then going back to the savepoint of the second one raises. -/
theorem streamAndProcess_invalidates_iff_sample :
    let w := World.initial sampleDb fun _ => some clashingFile
    ∃ log out w' events, (streamAndProcess 7 sampleSettings).Traces (sharedMachine 0) w log out w' ∧
      log.map Transition.choice = (List.range log.length).map (faultAt 8) ∧
      w'.history = w.history ++ events ∧ (Invalidated events ↔ ¬ Interrupted 7 log) :=
  streamAndProcess_invalidates_iff (fun _ _ => rfl) rfl (faultAt 8)

/-- One row is committed and the update of the status raises: the worker marks the batch as failed
and leaves the cached metrics as they are. -/
theorem streamAndProcess_leaves_stale_metrics :
    let w := World.initial sampleDb fun _ => some (sampleFile [65])
    let run := (streamAndProcess 7 sampleSettings).run (sharedMachine 0) (faultAt 3) w
    run.map (fun o => (o.1, o.2.2.history)) =
        some (.error (.operational "server closed the connection"),
          [.commit 0 [.insertEmployees [⟨⟨1, "A", 1609459200000000, 1, 1, 7⟩, none⟩]],
            .commit 0 [.updateBatch 7 .failed []]]) ∧
      ¬ ∃ r left w' events, run = some (r, left, w') ∧ w'.history = w.history ++ events ∧
        Invalidated events := by
  intro w run
  have hrun : run.map (fun o => (o.1, o.2.2.history)) =
      some (.error (.operational "server closed the connection"),
        [.commit 0 [.insertEmployees [⟨⟨1, "A", 1609459200000000, 1, 1, 7⟩, none⟩]],
          .commit 0 [.updateBatch 7 .failed []]]) := by decide +kernel
  refine ⟨hrun, ?_⟩
  rintro ⟨r, left, w', events, hend, hevents, hinvalidated⟩
  rw [hend] at hrun
  have hhistory : w'.history = _ := congrArg Prod.snd (Option.some.inj hrun)
  rw [hevents] at hhistory
  obtain ⟨pid, hdelete⟩ := hinvalidated [] _ _ hhistory rfl
  rcases List.mem_singleton.mp hdelete with ⟨⟩

end HiringService
