import HiringService.Contracts.Handled
import HiringService.Effect.Trace

/-!
# The calls of the employees writer

The calls by which the worker writes the rows of a file, whatever raises and whatever other
transactions commit in between (`Course`). A commit comes right after an insert that has returned.
The writer lets an exception out if and only if a call raises an `OperationalError` or a rollback
raises (`Fatal`), and after such a call it does nothing but roll back. When the writer returns, it
has nothing pending.
-/

namespace HiringService

open Effect (Program Transition)

/-- A call of process `pid`, before which other transactions may have committed. -/
abbrev SharedCall (pid : Pid) := Transition (sharedMachine pid)

variable {pid : Pid}

/-- The call inserts employees rows, and returns. -/
def InsertsEmployees (x : SharedCall pid) : Prop :=
  (∃ rows, x.op = .statement (.insertEmployees rows)) ∧ x.Returns

/-- The call raises what the writer does not recover from: an `OperationalError`, or the exception of
a rollback. -/
def Fatal (x : SharedCall pid) : Prop :=
  ∃ e, x.reply = .error e ∧
    (e.isOperational = true ∨ x.op = .rollback ∨ x.op = .rollbackToSavepoint)

/-- Every commit comes right after an insert of employees rows that has returned. -/
def CommitsInserts (log : List (SharedCall pid)) : Prop :=
  ∀ before x after, log = before ++ x :: after → x.op = .commit →
    ∃ before' insert, before = before' ++ [insert] ∧ InsertsEmployees insert

/-- The calls of a part of the writer that starts with nothing pending. -/
structure Course {α : Type} (log : List (SharedCall pid)) (out : Except Exn α) (w' : World) :
    Prop where
  commits : CommitsInserts log
  raises : (∃ x ∈ log, Fatal x) ↔ ∃ e, out = .error e
  rest : ∀ before x after, log = before ++ x :: after → Fatal x → ∀ y ∈ after, y.op = .rollback
  clean : ∀ a, out = .ok a → w'.server.own pid = []

/-- A call that returns is not fatal. -/
theorem not_fatal_of_returns {x : SharedCall pid} (h : x.Returns) : ¬ Fatal x := by
  obtain ⟨a, ha⟩ := h
  rintro ⟨e, he, -⟩
  cases ha.symm.trans he

/-! ## One part after another -/

section Parts

variable {α β : Type} {log log' : List (SharedCall pid)} {out : Except Exn α} {out' : Except Exn β}
  {w w' : World}

/-- Without calls there is no commit. -/
theorem commitsInserts_nil : CommitsInserts ([] : List (SharedCall pid)) := by
  intro _ _ _ hlog
  simp at hlog

/-- Two parts, each with its own inserts and commits. -/
theorem CommitsInserts.append (h : CommitsInserts log) (h' : CommitsInserts log') :
    CommitsInserts (log ++ log') := by
  intro before x after hlog hcommit
  rcases Program.append_eq_append_cons hlog with ⟨rest, hfirst, -⟩ | ⟨mid, rfl, hsecond⟩
  · exact h before x rest hfirst hcommit
  · obtain ⟨before', insert, rfl, hinsert⟩ := h' mid x after hsecond hcommit
    exact ⟨log ++ before', insert, (List.append_assoc _ _ _).symm, hinsert⟩

/-- A call that commits nothing. -/
theorem CommitsInserts.snoc (h : CommitsInserts log) {x : SharedCall pid} (hx : x.op ≠ .commit) :
    CommitsInserts (log ++ [x]) := by
  refine h.append fun before y after hlog hcommit => ?_
  obtain rfl : y = x :=
    List.mem_singleton.mp (hlog ▸ List.mem_append_right _ List.mem_cons_self)
  exact absurd hcommit hx

/-- A commit right after an insert. -/
theorem commitsInserts_insert {x y : SharedCall pid} (hx : InsertsEmployees x) :
    CommitsInserts [x, y] := by
  intro before z after hlog hcommit
  rcases before with _ | ⟨x', before⟩
  · obtain ⟨⟨rows, hop⟩, -⟩ := hx
    cases hlog
    cases hop.symm.trans hcommit
  rcases before with _ | ⟨y', before⟩
  · cases hlog
    exact ⟨[], x, rfl, hx⟩
  · simp at hlog

/-- A part of which every call returns. -/
theorem course_of_returns {a : α} (hcommits : CommitsInserts log) (h : ∀ x ∈ log, x.Returns)
    (hw : w.server.own pid = []) : Course log (.ok a) w where
  commits := hcommits
  raises := ⟨fun ⟨x, hx, hfatal⟩ => absurd hfatal (not_fatal_of_returns (h x hx)), nofun⟩
  rest _ x _ hlog hfatal :=
    absurd hfatal (not_fatal_of_returns (h x (hlog ▸ List.mem_append_right _ List.mem_cons_self)))
  clean _ _ := hw

/-- A part that returns, and what follows it. -/
theorem Course.append {a : α} (h : Course log (.ok a) w) (h' : Course log' out' w') :
    Course (log ++ log') out' w' where
  commits := h.commits.append h'.commits
  raises := by
    constructor
    · rintro ⟨x, hx, hfatal⟩
      rcases List.mem_append.mp hx with hx | hx
      · obtain ⟨e, he⟩ := h.raises.mp ⟨x, hx, hfatal⟩
        cases he
      · exact h'.raises.mp ⟨x, hx, hfatal⟩
    · intro he
      obtain ⟨x, hx, hfatal⟩ := h'.raises.mpr he
      exact ⟨x, List.mem_append_right _ hx, hfatal⟩
  rest before x after hlog hfatal := by
    rcases Program.append_eq_append_cons hlog with ⟨rest, hfirst, -⟩ | ⟨mid, -, hsecond⟩
    · obtain ⟨e, he⟩ := h.raises.mp
        ⟨x, hfirst ▸ List.mem_append_right _ List.mem_cons_self, hfatal⟩
      cases he
    · exact h'.rest mid x after hsecond hfatal
  clean := h'.clean

/-- The course of a part whose exception ends what it is part of. -/
theorem Course.raised {e e' : Exn} (h : Course log (.error e : Except Exn α) w) :
    Course log (.error e' : Except Exn β) w where
  commits := h.commits
  raises := h.raises.trans ⟨fun _ => ⟨_, rfl⟩, fun _ => ⟨_, rfl⟩⟩
  rest := h.rest
  clean _ := nofun

end Parts

/-! ## A `try` and its handler -/

/-- The calls of the body of a `try` that raises `e`: the last one does, and it is no rollback. -/
def BreaksOff (log : List (SharedCall pid)) (e : Exn) : Prop :=
  ∃ before last, log = before ++ [last] ∧ (∀ x ∈ before, x.Returns) ∧ last.reply = .error e ∧
    last.op ≠ .rollback ∧ last.op ≠ .rollbackToSavepoint

section Handler

variable {α : Type} {log : List (SharedCall pid)} {out : Except Exn α} {e : Exn} {w' : World}
  {c : List Write × Choice} {op : Op} {before after : World} {r : Except Exn (Reply op)}

/-- A body that raises, and a handler that makes one call. It rolls the unit of work back, in any case
after an `OperationalError`, which it lets out; another exception it lets out when it raises
itself. -/
theorem BreaksOff.course (h : BreaksOff log e) (hcommits : CommitsInserts log)
    (hop : op = .rollback ∨ op = .rollbackToSavepoint)
    (hoperational : e.isOperational = true → op = .rollback)
    (hout : (∃ e', out = .error e') ↔ e.isOperational = true ∨ ∃ e', r = .error e')
    (hclean : ∀ a, out = .ok a → w'.server.own pid = []) :
    Course (log ++ [(⟨op, c, before, r, after⟩ : SharedCall pid)]) out w' := by
  obtain ⟨first, last, rfl, hreturns, hlast, hnot, hnot'⟩ := h
  have hfatal_last : Fatal last ↔ e.isOperational = true := by
    constructor
    · rintro ⟨e', he', hfatal | hrollback | hrollback⟩
      · cases hlast.symm.trans he'
        exact hfatal
      · exact absurd hrollback hnot
      · exact absurd hrollback hnot'
    · exact fun he => ⟨e, hlast, Or.inl he⟩
  have hfatal_handler : Fatal (⟨op, c, before, r, after⟩ : SharedCall pid) ↔ ∃ e', r = .error e' :=
    ⟨fun ⟨e', he', _⟩ => ⟨e', he'⟩, fun ⟨e', he'⟩ => ⟨e', he', Or.inr hop⟩⟩
  refine ⟨hcommits.snoc ?_, ?_, ?_, hclean⟩
  · rcases hop with rfl | rfl <;> exact Op.noConfusion
  · rw [hout, ← hfatal_last, ← hfatal_handler]
    constructor
    · rintro ⟨x, hx, hfatal⟩
      simp only [List.mem_append, List.mem_singleton] at hx
      rcases hx with (hx | rfl) | rfl
      · exact absurd hfatal (not_fatal_of_returns (hreturns x hx))
      · exact Or.inl hfatal
      · exact Or.inr hfatal
    · rintro (hfatal | hfatal)
      · exact ⟨last, by simp, hfatal⟩
      · exact ⟨_, List.mem_append_right _ (List.mem_singleton_self _), hfatal⟩
  · intro pre x post hlog hfatal y hy
    -- after the call of the handler there is none, and after the last one of the body only that one
    rw [List.append_assoc] at hlog
    rcases Program.append_eq_append_cons hlog with ⟨rest, hfirst, -⟩ | ⟨mid, -, hsecond⟩
    · exact absurd hfatal (not_fatal_of_returns
        (hreturns x (hfirst ▸ List.mem_append_right _ List.mem_cons_self)))
    rcases mid with _ | ⟨z, mid⟩
    · obtain ⟨rfl, rfl⟩ := List.cons_eq_cons.mp hsecond
      rw [List.mem_singleton.mp hy]
      exact hoperational (hfatal_last.mp hfatal)
    · obtain ⟨-, hrest⟩ := List.cons_eq_cons.mp hsecond
      rcases mid with _ | ⟨z', mid⟩
      · obtain ⟨-, rfl⟩ := List.cons_eq_cons.mp hrest
        cases hy
      · simp at hrest

end Handler

/-! ## Rows -/

section Rows

variable {b : BatchId} {w w' : World} {log : List (SharedCall pid)} {errors : List String}

/-- What the session of a row has written goes with the savepoint in the slot. -/
theorem undoable_of_level {own : List (Txn.Entry Pid Write)} {s : Txn.Session} {handle : ℕ}
    (h : ∀ e ∈ own, e.level = handle) : Undoable [] own s (some handle) := by
  refine ⟨nofun, fun handle' hhandle => ?_⟩
  obtain rfl := Option.some.inj hhandle
  rw [List.filter_eq_nil_iff.mpr fun e he => ?_]
  · rfl
  · simp [h e he]

/-- How the body of the `try` of a row ends. -/
def RowEnded (log : List (SharedCall pid)) (w' : World) : Except Exn (List String) → Prop
  | .ok _ => (∀ x ∈ log, x.Returns) ∧ w'.server.own pid = []
  | .error e => BreaksOff log e ∧
      Undoable [] (w'.server.own pid) (w'.server.sessions pid) (w'.slot pid)

/-- The body of a row: each of its three calls may raise, and the others then follow no more. -/
theorem rowBody_inv {record : EmployeeRecord} {out : Except Exn (List String)}
    (h : (do
      Uow.beginNested
      Uow.employeesAdd record b
      Uow.commit
      return errors : Prog (List String)).Traces (sharedMachine pid) w log out w')
    (hw : w.server.own pid = []) : CommitsInserts log ∧ RowEnded log w' out := by
  obtain ⟨c₁, r₁, w₁, rest₁, hbegin, rfl, ⟨_, rfl, h₁⟩ | ⟨e, rfl, rfl, rfl, rfl⟩⟩ :=
    h.request_bind_inv
  rotate_left
  · obtain ⟨-, hown, -⟩ := exec_beginNested (show exec pid c₁.2 (w.foreign c₁.1) _ = _ from hbegin)
    refine ⟨commitsInserts_nil.snoc Op.noConfusion, ⟨[], _, rfl, by simp, rfl, ?_⟩,
      undoable_nil (hown.trans hw)⟩
    exact ⟨Op.noConfusion, Op.noConfusion⟩
  obtain ⟨-, hown₁, ⟨-, hslot₁, hopened⟩ | ⟨e, he, -⟩⟩ :=
    exec_beginNested (show exec pid c₁.2 (w.foreign c₁.1) _ = _ from hbegin)
  rotate_left
  · cases he
  -- the savepoint is open and its handle in the slot; whatever is written now is behind it
  obtain ⟨c₂, r₂, w₂, rest₂, hadd, rfl, hrest⟩ := h₁.request_bind_inv
  obtain ⟨-, hslot₂, -, hown₂⟩ := exec_insert (insertEmployees_inserts _)
    (show exec pid c₂.2 (w₁.foreign c₂.1) _ = _ from hadd)
  have hslot : w₂.slot pid = some (w₁.server.sessions pid).level := by
    rw [Txn.Session.level, hopened]
    exact (congrFun hslot₂ pid).trans hslot₁
  have hlevel : ∀ e ∈ w₂.server.own pid, e.level = (w₁.server.sessions pid).level := by
    have hnil : w₁.server.own pid = [] := hown₁.trans hw
    intro e he
    rcases hown₂ with ⟨-, hown⟩ | ⟨hown, -⟩
    · rw [hown, show (w₁.foreign c₂.1).server.own pid = [] from hnil] at he
      rw [List.mem_singleton.mp he]
      rfl
    · rw [hown, show (w₁.foreign c₂.1).server.own pid = [] from hnil] at he
      cases he
  rcases hrest with ⟨_, rfl, h₂⟩ | ⟨e, rfl, rfl, rfl, rfl⟩
  rotate_left
  · refine ⟨(commitsInserts_nil.snoc Op.noConfusion).snoc Op.noConfusion,
      ⟨[_], _, rfl, by simp [Transition.Returns], rfl, Op.noConfusion, Op.noConfusion⟩, ?_⟩
    rw [hslot]
    exact undoable_of_level hlevel
  obtain ⟨c₃, r₃, w₃, rest₃, hcommit, rfl, hrest⟩ := h₂.request_bind_inv
  -- the insert has returned, and its commit follows
  have hcommits : CommitsInserts
      ([⟨.beginNested, c₁, w, .ok (), w₁⟩,
        ⟨.statement (.insertEmployees [record.values b]), c₂, w₁, .ok (), w₂⟩,
        ⟨.commit, c₃, w₂, r₃, w₃⟩] : List (SharedCall pid)) :=
    (commitsInserts_nil.snoc Op.noConfusion).append
      (commitsInserts_insert ⟨⟨_, rfl⟩, (), rfl⟩)
  have hend := exec_commit (show exec pid c₃.2 (w₂.foreign c₃.1) _ = _ from hcommit)
  rcases hrest with ⟨_, rfl, h₃⟩ | ⟨e, rfl, rfl, rfl, rfl⟩
  · cases h₃
    rcases hend with ⟨hpublished, -⟩ | ⟨e, he, -⟩
    · exact ⟨hcommits, by simp [Transition.Returns], hpublished.own_self⟩
    · cases he
  · refine ⟨hcommits, ⟨[_, _], _, rfl, by simp [Transition.Returns], rfl, Op.noConfusion,
      Op.noConfusion⟩, ?_⟩
    rcases hend with ⟨hpublished, -⟩ | ⟨-, -, -, hslot₃, hown₃, -⟩
    · exact undoable_nil hpublished.own_self
    · rw [show w'.slot pid = _ from (congrFun hslot₃ pid).trans hslot, hown₃]
      exact undoable_of_level hlevel

/-- One record, whatever happens to its calls. -/
theorem course_writeRow {record : EmployeeRecord} {out : Except Exn (List String)}
    (h : (writeRow b errors record).Traces (sharedMachine pid) w log out w')
    (hw : w.server.own pid = []) : Course log out w' := by
  rcases h.tryExcept_inv with ⟨_, rfl, hbody⟩ | ⟨exc, body, handler, w₁, rfl, hbody, hhandler⟩
  · obtain ⟨hcommits, hreturns, hown⟩ := rowBody_inv hbody hw
    exact course_of_returns hcommits hreturns hown
  obtain ⟨hcommits, hbreaks, hundoable⟩ := rowBody_inv hbody hw
  -- an outage is let out after a rollback, any other exception makes an entry
  by_cases hexc : exc.isOperational = true
  · rw [if_pos hexc] at hhandler
    obtain ⟨e, he⟩ := @raiseTranslated_eq (List String) exc
    obtain ⟨c, r, w₂, rest, hrollback, rfl, ⟨_, rfl, h₂⟩ | ⟨e', rfl, rfl, rfl, rfl⟩⟩ :=
      hhandler.request_bind_inv
    · rw [he] at h₂
      cases h₂
      exact hbreaks.course hcommits (Or.inl rfl) (fun _ => rfl)
        ⟨fun _ => Or.inl hexc, fun _ => ⟨_, rfl⟩⟩ fun _ => nofun
    · exact hbreaks.course hcommits (Or.inl rfl) (fun _ => rfl)
        ⟨fun _ => Or.inl hexc, fun _ => ⟨_, rfl⟩⟩ fun _ => nofun
  · rw [if_neg hexc] at hhandler
    obtain ⟨c, r, w₂, rest, hback, rfl, ⟨_, rfl, h₂⟩ | ⟨e', rfl, rfl, rfl, rfl⟩⟩ :=
      hhandler.request_bind_inv
    · cases h₂
      refine hbreaks.course hcommits (Or.inr rfl) (fun h => absurd h hexc)
        ⟨nofun, fun h => h.elim (fun h => absurd h hexc) nofun⟩ fun _ _ => ?_
      -- the row that was not committed is undone
      obtain ⟨-, ⟨-, hslot, rfl⟩ | ⟨-, -, handle, hslot, -, -, hown⟩ | ⟨⟨e, he⟩, -⟩⟩ :=
        exec_rollbackToSavepoint (show exec pid c.2 (w₁.foreign c.1) _ = _ from hback)
      · exact List.map_eq_nil_iff.mp (hundoable.1 hslot)
      · rw [hown]
        exact List.map_eq_nil_iff.mp (hundoable.2 handle hslot)
      · cases he
    · exact hbreaks.course hcommits (Or.inr rfl) (fun h => absurd h hexc)
        ⟨fun _ => Or.inr ⟨_, rfl⟩, fun _ => ⟨_, rfl⟩⟩ fun _ => nofun

/-- A loop over parts of the writer. -/
theorem course_foldlM {α : Type} {f : List String → α → Prog (List String)}
    (hf : ∀ {errors x w log out w'}, (f errors x).Traces (sharedMachine pid) w log out w' →
      w.server.own pid = [] → Course log out w')
    {xs : List α} {out : Except Exn (List String)}
    (h : (xs.foldlM f errors).Traces (sharedMachine pid) w log out w')
    (hw : w.server.own pid = []) : Course log out w' := by
  induction xs generalizing errors w log with
  | nil =>
      cases h
      exact course_of_returns commitsInserts_nil (List.forall_mem_nil _) hw
  | cons x xs ih =>
      rw [List.foldlM_cons] at h
      rcases h.bind_inv with ⟨_, log₁, log₂, w₁, rfl, h₁, h₂⟩ | ⟨e, rfl, h₁⟩
      · have hfirst := hf h₁ hw
        exact hfirst.append (ih h₂ (hfirst.clean _ rfl))
      · exact (hf h₁ hw).raised

end Rows

/-! ## Chunks -/

section Chunks

variable {b : BatchId} {w w' : World} {log : List (SharedCall pid)} {errors : List String}
  {records : List EmployeeRecord}

/-- The body of the bulk insert: one insert and its commit. -/
theorem bulkBody_inv {out : Except Exn Bool}
    (h : (do
      Uow.employeesBulkInsert records b
      Uow.commit
      return true : Prog Bool).Traces (sharedMachine pid) w log out w') :
    CommitsInserts log ∧ match out with
      | .ok _ => (∀ x ∈ log, x.Returns) ∧ w'.server.own pid = []
      | .error e => BreaksOff log e := by
  obtain ⟨c₁, r₁, w₁, rest₁, hinsert, rfl, ⟨_, rfl, h₁⟩ | ⟨e, rfl, rfl, rfl, rfl⟩⟩ :=
    h.request_bind_inv
  rotate_left
  · exact ⟨commitsInserts_nil.snoc Op.noConfusion, [], _, rfl, by simp, rfl, Op.noConfusion,
      Op.noConfusion⟩
  obtain ⟨c₂, r₂, w₂, rest₂, hcommit, rfl, hrest⟩ := h₁.request_bind_inv
  rcases hrest with ⟨_, rfl, h₂⟩ | ⟨e, rfl, rfl, rfl, rfl⟩
  · cases h₂
    refine ⟨commitsInserts_insert ⟨⟨_, rfl⟩, (), rfl⟩, ?_⟩
    rcases exec_commit (show exec pid c₂.2 (w₁.foreign c₂.1) _ = _ from hcommit) with
      ⟨hpublished, -⟩ | ⟨e, he, -⟩
    · exact ⟨by simp [Transition.Returns], hpublished.own_self⟩
    · cases he
  · exact ⟨commitsInserts_insert ⟨⟨_, rfl⟩, (), rfl⟩, [_], _, rfl, by simp [Transition.Returns],
      rfl, Op.noConfusion, Op.noConfusion⟩

/-- The bulk insert with its handler, which rolls back whatever was raised. -/
theorem course_writeBulk {out : Except Exn Bool}
    (h : (writeBulk b records).Traces (sharedMachine pid) w log out w') : Course log out w' := by
  rcases h.tryExcept_inv with ⟨_, rfl, hbody⟩ | ⟨exc, body, handler, w₁, rfl, hbody, hhandler⟩
  · obtain ⟨hcommits, hreturns, hown⟩ := bulkBody_inv hbody
    exact course_of_returns hcommits hreturns hown
  obtain ⟨hcommits, hbreaks⟩ := bulkBody_inv hbody
  obtain ⟨c, r, w₂, rest, hrollback, rfl, ⟨_, rfl, h₂⟩ | ⟨e', rfl, rfl, rfl, rfl⟩⟩ :=
    hhandler.request_bind_inv
  · obtain ⟨-, -, -, ⟨hown, -⟩ | ⟨⟨e, he⟩, -⟩⟩ :=
      exec_rollback (show exec pid c.2 (w₁.foreign c.1) _ = _ from hrollback)
    rotate_left
    · cases he
    by_cases hexc : exc.isOperational = true
    · obtain ⟨e, he⟩ := @raiseTranslated_eq Bool exc
      rw [if_pos hexc, he] at h₂
      cases h₂
      exact hbreaks.course hcommits (Or.inl rfl) (fun _ => rfl)
        ⟨fun _ => Or.inl hexc, fun _ => ⟨_, rfl⟩⟩ fun _ => nofun
    · rw [if_neg hexc] at h₂
      cases h₂
      exact hbreaks.course hcommits (Or.inl rfl) (fun _ => rfl)
        ⟨nofun, fun h => h.elim (fun h => absurd h hexc) nofun⟩ fun _ _ => hown
  · exact hbreaks.course hcommits (Or.inl rfl) (fun _ => rfl)
      ⟨fun _ => Or.inr ⟨_, rfl⟩, fun _ => ⟨_, rfl⟩⟩ fun _ => nofun

/-- A chunk: what remains after the bulk insert goes row by row. -/
theorem course_writeEmployees {out : Except Exn (List String)}
    (h : (writeEmployees b records).Traces (sharedMachine pid) w log out w') : Course log out w' := by
  rcases h.bind_inv with ⟨done, log₁, log₂, w₁, rfl, h₁, h₂⟩ | ⟨e, rfl, h₁⟩
  · -- the bulk insert ends with nothing pending, so the rows can follow
    have hbulk := course_writeBulk h₁
    have hown := hbulk.clean _ rfl
    cases done with
    | true =>
        cases h₂
        exact hbulk.append (course_of_returns commitsInserts_nil (List.forall_mem_nil _) hown)
    | false => exact hbulk.append (course_foldlM course_writeRow h₂ hown)
  · exact (course_writeBulk h₁).raised

/-- The chunk loop. -/
theorem course_writeChunks {chunks : List (List EmployeeRecord)} {out : Except Exn (List String)}
    (h : (writeChunks b errors chunks).Traces (sharedMachine pid) w log out w')
    (hw : w.server.own pid = []) : Course log out w' := by
  refine course_foldlM (fun h _ => ?_) h hw
  obtain ⟨out', h', rfl⟩ := h.map_inv
  have hchunk := course_writeEmployees h'
  cases out' with
  | ok _ => exact ⟨hchunk.commits, hchunk.raises.trans ⟨nofun, nofun⟩, hchunk.rest,
      fun _ _ => hchunk.clean _ rfl⟩
  | error e => exact hchunk.raised

end Chunks

end HiringService
