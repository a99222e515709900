import HiringService.Contracts.Outage
import HiringService.Sequential.Employees

/-!
# Savepoints of the row-by-row fallback

Each record is written in a savepoint of its own. What the loops should keep to is `Disciplined`: a
savepoint is opened only when none is open, and going back to a savepoint keeps what the session had
written when the current record began.

The unit of work has one slot for a savepoint, which only a rollback clears, and an accepted row
does not close its savepoint. So the ingestion of departments or jobs leaves the savepoint of an
accepted row open (`Left`): the next record opens a second one inside it, or, if its `begin_nested`
raises, undoes the accepted row. The worker commits after each row, which closes the savepoint. In
both, a `begin_nested` that raises after it has opened the savepoint leaves it open with no handle
(`Orphaned`). Savepoints inside savepoints may be too many for a commit to close.
-/

namespace HiringService

open Effect (Program Transition)

variable {pid : Pid}

/-- The savepoints that the session of `pid` has open, innermost first. -/
def World.openSavepoints (w : World) (pid : Pid) : List ℕ := (w.server.sessions pid).savepoints

/-- The call opens a savepoint. -/
def Opens (x : Call pid) : Prop :=
  x.op = .beginNested ∧ x.after.openSavepoints pid ≠ x.before.openSavepoints pid

/-- A savepoint is opened only when none is open, and going back to a savepoint keeps `mark`: what
the session had written when the current record began. -/
def Disciplined : List (Txn.Entry Pid Write) → List (Call pid) → Prop
  | _, [] => True
  | mark, x :: log =>
      (Opens x → x.before.openSavepoints pid = []) ∧
        (x.op = .rollbackToSavepoint → mark <+: x.after.server.own pid) ∧
        Disciplined (if x.op = .beginNested then x.before.server.own pid else mark) log

/-- Rows are inserted. -/
def Op.InsertsRows : Op → Prop
  | .statement (.insertReference ..) | .statement (.insertEmployees ..) => True
  | _ => False

/-- The row is accepted. -/
def Accepts (x : Call pid) : Prop := x.op.InsertsRows ∧ x.Returns

/-- The call raises and leaves open the savepoint that it has opened. -/
def Orphans (x : Call pid) : Prop := Opens x ∧ ¬ x.Returns

/-- Only `begin_nested` and the inserts of rows are made to raise, and not with an
`OperationalError`. -/
def FaultsInRecords (log : List (Call pid)) : Prop :=
  ∀ x ∈ log, ∀ f, x.choice.fault = some f →
    f.exn.isOperational = false ∧ (x.op = .beginNested ∨ x.op.InsertsRows)

section

variable {c : Choice} {w w' : World}

/-! ## What single calls do to the savepoints -/

/-- `begin_nested` may raise with or without having opened the savepoint. -/
theorem exec_beginNested_savepoints {r : Except Exn Unit}
    (h : exec pid c w .beginNested = some (r, w')) :
    w'.server.own pid = w.server.own pid ∧
      (((∃ e, r = .error e) ∧ w'.slot pid = w.slot pid ∧
          w'.openSavepoints pid = w.openSavepoints pid ∧
          (w'.server.sessions pid).next = (w.server.sessions pid).next) ∨
        (w'.openSavepoints pid = (w.server.sessions pid).next :: w.openSavepoints pid ∧
          (w'.server.sessions pid).next = (w.server.sessions pid).next + 1 ∧
          ((∃ e, r = .error e) ∧ w'.slot pid = w.slot pid ∨
            r = .ok () ∧ w'.slot pid = some (w.server.sessions pid).next))) := by
  refine ⟨(exec_beginNested h).2.1, ?_⟩
  rcases exec_cases h with hattempt | ⟨f, -, rfl, rfl⟩
  · simp only [attempt] at hattempt
    split at hattempt
    · cases hattempt
      exact Or.inl ⟨⟨_, rfl⟩, rfl, rfl, rfl⟩
    · cases hattempt
      refine Or.inr ⟨?_, ?_, Or.inr ⟨rfl, ?_⟩⟩
      · simp [World.openSavepoints, World.savepoint]
      · simp [World.savepoint]
      · simp
  · simp only [disturbed]
    split
    · refine Or.inr ⟨?_, ?_, Or.inl ⟨⟨_, rfl⟩, ?_⟩⟩
      · simp [World.openSavepoints, World.savepoint]
      · simp [World.savepoint]
      · simp [World.savepoint]
    · exact Or.inl ⟨⟨_, rfl⟩, by simp, failIf_savepoints pid, failIf_next pid⟩

/-- Going back to a savepoint, with no fault: nothing to do, a handle that is closed, or an open
one. -/
theorem exec_rollbackToSavepoint_calm {r : Except Exn Unit} (hc : c.fault = none)
    (h : exec pid c w .rollbackToSavepoint = some (r, w')) :
    (w.slot pid = none ∧ r = .ok () ∧ w' = w) ∨
      ∃ handle, w.slot pid = some handle ∧
        ((handle ∉ w.openSavepoints pid ∧ r = .error .resourceClosed ∧ w' = w) ∨
          (handle ∈ w.openSavepoints pid ∧ r = .ok () ∧ w'.slot pid = none ∧
            w'.openSavepoints pid = (w.openSavepoints pid).filter (· < handle) ∧
            w'.server.own pid = (w.server.own pid).filter fun e => e.level < handle)) := by
  rcases exec_cases h with hattempt | ⟨f, hf, -, -⟩
  · simp only [attempt] at hattempt
    rcases hslot : w.slot pid with _ | handle
    · simp only [hslot] at hattempt
      cases hattempt
      exact Or.inl ⟨rfl, rfl, rfl⟩
    refine Or.inr ⟨handle, rfl, ?_⟩
    rcases hto : w.server.rollbackTo pid handle with _ | server
    · simp only [hslot, hto] at hattempt
      cases hattempt
      refine Or.inl ⟨fun hmem => ?_, rfl, rfl⟩
      obtain ⟨server, hsome⟩ := w.server.rollbackTo_isSome pid hmem
      cases hto.symm.trans hsome
    · simp only [hslot, hto] at hattempt
      cases hattempt
      obtain ⟨hmem, -, -, hown, -, hsessions⟩ := w.server.rollbackTo_spec hto
      refine Or.inr ⟨hmem, rfl, Function.update_self _ _ _, ?_, hown⟩
      simp [World.openSavepoints, hsessions, Txn.Session.popTo_savepoints]
  · cases hc.symm.trans hf

theorem Op.InsertsRows.inserts {s : Statement} (h : (Op.statement s).InsertsRows) : s.Inserts := by
  cases s with
  | insertReference t rows => exact insertReference_inserts t rows
  | insertEmployees rows => exact insertEmployees_inserts rows
  | addBatch => exact h.elim
  | updateStatus => exact h.elim

/-- What raises in the savepoint of a record is no `OperationalError`, unless it is made to be
one. -/
theorem isOperational_of_exec {op : Op} {e : Exn} (hop : op = .beginNested ∨ op.InsertsRows)
    (hf : ∀ f, c.fault = some f → f.exn.isOperational = false)
    (h : exec pid c w op = some (.error e, w')) : e.isOperational = false := by
  rcases exec_cases h with hattempt | ⟨f, hfault, he, -⟩
  · cases op with
    | beginNested =>
        simp only [attempt] at hattempt
        split at hattempt
        · cases hattempt
          rfl
        · cases hattempt
    | statement s =>
        have hs : s.Inserts := (hop.resolve_left (by simp)).inserts
        simp only [attempt, hs (w.view pid)] at hattempt
        split at hattempt
        · cases hattempt
          rfl
        have hspec := planInsert_spec (w.view pid) (w.server.others pid) c.sql (s.write w.clock)
        rcases hplan : planInsert (w.view pid) (w.server.others pid) c.sql (s.write w.clock)
          with wr | _ | e' | _
        · rw [hplan] at hattempt
          cases hattempt
        · rw [hplan] at hattempt
          cases hattempt
        · rw [hplan] at hattempt hspec
          cases hattempt
          exact hspec
        · rw [hplan] at hattempt
          cases hattempt
    | _ => exact (hop.resolve_left (by simp)).elim
  · cases he
    exact hf f hfault

/-! ## The loop over the records

`RowLoop commits` is the loop of an ingestion or, if it commits after every accepted row, that of
the worker. -/

/-- The calls of a record that is rejected: `begin_nested` or the insert raises, or too many savepoints
are open for the commit of the row, and the unit of work goes back to the savepoint in its slot. -/
inductive Rejected : World → List (Call pid) → Except Exn Unit → World → Prop
  | begun {c c' : Choice} {e : Exn} {r : Except Exn Unit} {w w₁ w' : World}
      (hbegin : exec pid c w .beginNested = some (.error e, w₁)) (hcalm : c'.fault = none)
      (hback : exec pid c' w₁ .rollbackToSavepoint = some (r, w')) :
      Rejected w [⟨.beginNested, c, w, .error e, w₁⟩, ⟨.rollbackToSavepoint, c', w₁, r, w'⟩] r w'
  | inserted {c c' c'' : Choice} {s : Statement} {e : Exn} {r : Except Exn Unit} {w w₁ w₂ w' : World}
      (hs : (Op.statement s).InsertsRows) (hbegin : exec pid c w .beginNested = some (.ok (), w₁))
      (hinsert : exec pid c' w₁ (.statement s) = some (.error e, w₂)) (hcalm : c''.fault = none)
      (hback : exec pid c'' w₂ .rollbackToSavepoint = some (r, w')) :
      Rejected w [⟨.beginNested, c, w, .ok (), w₁⟩, ⟨.statement s, c', w₁, .error e, w₂⟩,
        ⟨.rollbackToSavepoint, c'', w₂, r, w'⟩] r w'
  | uncommitted {c c' c₂ c₃ : Choice} {s : Statement} {e : Exn} {r : Except Exn Unit}
      {w w₁ w₂ w₃ w' : World} (hs : (Op.statement s).InsertsRows)
      (hbegin : exec pid c w .beginNested = some (.ok (), w₁))
      (hinsert : exec pid c' w₁ (.statement s) = some (.ok (), w₂)) (hcalm : c₂.fault = none)
      (hcommit : exec pid c₂ w₂ .commit = some (.error e, w₃)) (hcalm' : c₃.fault = none)
      (hback : exec pid c₃ w₃ .rollbackToSavepoint = some (r, w')) :
      Rejected w [⟨.beginNested, c, w, .ok (), w₁⟩, ⟨.statement s, c', w₁, .ok (), w₂⟩,
        ⟨.commit, c₂, w₂, .error e, w₃⟩, ⟨.rollbackToSavepoint, c₃, w₃, r, w'⟩] r w'

/-- The calls of a record that is accepted. -/
inductive Accepted : Bool → World → List (Call pid) → World → Prop
  | left {c c' : Choice} {s : Statement} {w w₁ w' : World} (hs : (Op.statement s).InsertsRows)
      (hbegin : exec pid c w .beginNested = some (.ok (), w₁))
      (hinsert : exec pid c' w₁ (.statement s) = some (.ok (), w')) :
      Accepted false w [⟨.beginNested, c, w, .ok (), w₁⟩, ⟨.statement s, c', w₁, .ok (), w'⟩] w'
  | committed {c c' c'' : Choice} {s : Statement} {w w₁ w₂ w' : World}
      (hs : (Op.statement s).InsertsRows) (hbegin : exec pid c w .beginNested = some (.ok (), w₁))
      (hinsert : exec pid c' w₁ (.statement s) = some (.ok (), w₂))
      (hcommit : exec pid c'' w₂ .commit = some (.ok (), w')) :
      Accepted true w [⟨.beginNested, c, w, .ok (), w₁⟩, ⟨.statement s, c', w₁, .ok (), w₂⟩,
        ⟨.commit, c'', w₂, .ok (), w'⟩] w'

/-- The calls of the loop. -/
inductive RowLoop (commits : Bool) : World → List (Call pid) → World → Prop
  | nil {w : World} : RowLoop commits w [] w
  | accept {w w₁ w' : World} {first rest : List (Call pid)} (hrow : Accepted commits w first w₁)
      (hrest : RowLoop commits w₁ rest w') : RowLoop commits w (first ++ rest) w'
  | reject {w w₁ w' : World} {first rest : List (Call pid)} (hrow : Rejected w first (.ok ()) w₁)
      (hrest : RowLoop commits w₁ rest w') : RowLoop commits w (first ++ rest) w'
  | stop {w w' : World} {e : Exn} {first : List (Call pid)} (hrow : Rejected w first (.error e) w') :
      RowLoop commits w first w'

/-! ## Where the loop stands -/

/-- No savepoint is open, and the slot holds at most the handle of one that has been closed. -/
structure World.NoneOpen (w : World) (pid : Pid) : Prop where
  opened : w.openSavepoints pid = []
  slot : ∀ h, w.slot pid = some h → h < (w.server.sessions pid).next

/-- The savepoint in the slot is open, and a row has been written in it. -/
structure World.LeftOpen (w : World) (pid : Pid) : Prop where
  handle : ∃ h, w.slot pid = some h ∧ h ∈ w.openSavepoints pid ∧ ∃ e ∈ w.server.own pid, h ≤ e.level

/-- A savepoint is open, and the slot is empty. -/
structure World.Orphaned (w : World) (pid : Pid) : Prop where
  opened : w.openSavepoints pid ≠ []
  slot : w.slot pid = none

variable {mark : List (Txn.Entry Pid Write)} {first rest log : List (Call pid)}

/-- Only `begin_nested` opens savepoints. -/
theorem not_opens_of_ne {x : Call pid} (h : x.op ≠ .beginNested) : ¬ Opens x := fun hx => h hx.1

/-- A `begin_nested` that returns opens a savepoint. -/
theorem opens_of_ok (h : exec pid c w .beginNested = some (.ok (), w')) :
    w'.openSavepoints pid = (w.server.sessions pid).next :: w.openSavepoints pid ∧
      w'.slot pid = some (w.server.sessions pid).next ∧
      (w'.server.sessions pid).next = (w.server.sessions pid).next + 1 ∧
      w'.server.own pid = w.server.own pid ∧
      Opens (⟨.beginNested, c, w, .ok (), w'⟩ : Call pid) := by
  obtain ⟨hown, ⟨⟨e, he⟩, -⟩ | ⟨hopened, hnext, ⟨⟨e, he⟩, -⟩ | ⟨-, hslot⟩⟩⟩ :=
    exec_beginNested_savepoints h
  · cases he
  · cases he
  · refine ⟨hopened, hslot, hnext, hown, rfl, ?_⟩
    show w'.openSavepoints pid ≠ w.openSavepoints pid
    rw [hopened]
    exact List.cons_ne_self _ _

/-- An insert leaves the savepoints and the slot alone, and what it adds is written in the innermost
savepoint. -/
theorem exec_insert_savepoints {s : Statement} (hs : (Op.statement s).InsertsRows)
    {r : Except Exn Unit} (h : exec pid c w (.statement s) = some (r, w')) :
    w'.openSavepoints pid = w.openSavepoints pid ∧ w'.slot pid = w.slot pid ∧
      (w'.server.sessions pid).next = (w.server.sessions pid).next ∧
      (w'.server.own pid = w.server.own pid ++
          [⟨pid, (w.openSavepoints pid).headD 0, s.write w.clock⟩] ∨
        (w'.server.own pid = w.server.own pid ∧ r ≠ .ok ())) := by
  obtain ⟨-, hslot, hsavepoints, hnext, hown⟩ := exec_statement h
  refine ⟨hsavepoints, congrFun hslot pid, hnext, ?_⟩
  rcases hown with ⟨-, hown⟩ | ⟨hown, hskip⟩
  · exact Or.inl hown
  · refine Or.inr ⟨hown, fun hr => ?_⟩
    obtain ⟨sql, hplan⟩ := hskip hr
    exact hs.inserts.plan_ne_skip _ _ _ _ hplan

/-- The first part of a disciplined log is disciplined. -/
theorem Disciplined.append_left (h : Disciplined mark (first ++ rest)) : Disciplined mark first := by
  induction first generalizing mark with
  | nil => trivial
  | cons x first ih => exact ⟨h.1, h.2.1, ih h.2.2⟩

/-- Disciplined calls after disciplined ones, whatever the mark is at that point. -/
theorem Disciplined.append (h : Disciplined mark first) (hrest : ∀ mark, Disciplined mark rest) :
    Disciplined mark (first ++ rest) := by
  induction first generalizing mark with
  | nil => exact hrest mark
  | cons x first ih => exact ⟨h.1, h.2.1, ih h.2.2⟩

/-- The rest of a disciplined log is disciplined, from what had been written at its beginning. -/
theorem Disciplined.append_right (h : Disciplined mark (first ++ rest)) :
    ∃ mark', Disciplined mark' rest := by
  induction first generalizing mark with
  | nil => exact ⟨mark, h⟩
  | cons x first ih => exact ih h.2.2

/-- A breach remains one, whatever comes before it. -/
theorem not_disciplined_append (h : ∀ mark, ¬ Disciplined mark rest)
    (mark : List (Txn.Entry Pid Write)) : ¬ Disciplined mark (first ++ rest) := by
  intro hmark
  obtain ⟨mark', h'⟩ := hmark.append_right
  exact h mark' h'

/-- Nothing is asked of what follows a call of a kind that does not occur. -/
theorem pairwise_of_none {P Q : Call pid → Prop} (h : ∀ x ∈ log, ¬ P x) :
    log.Pairwise fun x y => P x → Q y :=
  List.pairwise_of_forall_mem_list fun x hx _ _ hP => absurd hP (h x hx)

/-! ### No savepoint is open -/

/-- A record that is accepted opens one savepoint. The worker closes it. -/
theorem Accepted.noneOpen {commits : Bool} (h : Accepted commits w first w') (hw : w.NoneOpen pid) :
    (∀ mark, Disciplined mark first) ∧ (∀ x ∈ first, ¬ Orphans x) ∧
      (commits = true → w'.NoneOpen pid) ∧
      (commits = false → w'.LeftOpen pid ∧ (∃ x ∈ first, Accepts x) ∧
        first.Pairwise fun x y => Accepts x → y.op ≠ .beginNested) := by
  cases h with
  | left hs hbegin hinsert =>
      -- the ingestion leaves the savepoint of the row open, and its handle in the slot
      obtain ⟨hopened, hslot, -, -, -⟩ := opens_of_ok hbegin
      obtain ⟨hopened', hslot', -, hown | ⟨-, hnot⟩⟩ := exec_insert_savepoints hs hinsert
      · refine ⟨fun mark => ⟨fun _ => hw.opened, by simp, fun hopens => ?_, by simp, trivial⟩, ?_,
          by simp, fun _ => ⟨⟨_, hslot'.trans hslot, ?_, ?_⟩, ?_, ?_⟩⟩
        · exact absurd hopens (not_opens_of_ne (by simp))
        · simp [Orphans, Transition.Returns]
        · rw [hopened', hopened]
          exact List.mem_cons_self
        · rw [hown, hopened]
          exact ⟨_, List.mem_append_right _ (List.mem_singleton_self _), Nat.le_refl _⟩
        · exact ⟨_, List.mem_cons_of_mem _ (List.mem_singleton_self _), hs, (), rfl⟩
        · simp
      · exact absurd rfl hnot
  | committed hs hbegin hinsert hcommit =>
      -- the commit of the worker closes the savepoint; the handle in the slot is stale then
      obtain ⟨-, hslot, hnext, -, -⟩ := opens_of_ok hbegin
      obtain ⟨-, hslot', hnext', -⟩ := exec_insert_savepoints hs hinsert
      refine ⟨fun mark => ⟨fun _ => hw.opened, by simp, fun hopens => ?_, by simp, fun hopens => ?_,
        by simp, trivial⟩, ?_, fun _ => ?_, by simp⟩
      · exact absurd hopens (not_opens_of_ne (by simp))
      · exact absurd hopens (not_opens_of_ne (by simp))
      · simp [Orphans, Transition.Returns]
      · rcases exec_commit hcommit with ⟨hpublished, -⟩ | ⟨e, he, -⟩
        · refine ⟨hpublished.savepoints, fun handle hhandle => ?_⟩
          rw [hpublished.slot, hslot', hslot] at hhandle
          cases hhandle
          rw [hpublished.next, hnext', hnext]
          exact Nat.lt_succ_self _
        · cases he

/-- Going back to a savepoint that is not open changes nothing. -/
theorem rollbackToSavepoint_stale {r : Except Exn Unit} (hcalm : c.fault = none)
    (hstale : ∀ h, w.slot pid = some h → h ∉ w.openSavepoints pid)
    (h : exec pid c w .rollbackToSavepoint = some (r, w')) :
    w' = w ∧ (r = .ok () → w.slot pid = none) := by
  rcases exec_rollbackToSavepoint_calm hcalm h with ⟨hslot, -, rfl⟩ |
    ⟨handle, hslot, ⟨-, rfl, rfl⟩ | ⟨hmem, -⟩⟩
  · exact ⟨rfl, fun _ => hslot⟩
  · exact ⟨rfl, nofun⟩
  · exact absurd hmem (hstale handle hslot)

/-- Going back to the savepoint that was opened last keeps what had been written before. -/
theorem rollbackToSavepoint_last {r : Except Exn Unit} {own added : List (Txn.Entry Pid Write)}
    {h : ℕ} (hcalm : c.fault = none) (hslot : w.slot pid = some h) (hopened : w.openSavepoints pid = [h])
    (hown : w.server.own pid = own ++ added) (hlevel : ∀ e ∈ own, e.level < h)
    (hback : exec pid c w .rollbackToSavepoint = some (r, w')) :
    w'.NoneOpen pid ∧ own <+: w'.server.own pid := by
  rcases exec_rollbackToSavepoint_calm hcalm hback with ⟨hnone, -⟩ |
    ⟨handle, hhandle, ⟨hmem, -⟩ | ⟨-, -, hslot', hopened', hown'⟩⟩
  · cases hslot.symm.trans hnone
  · obtain rfl : h = handle := Option.some_inj.mp (hslot.symm.trans hhandle)
    rw [hopened] at hmem
    exact absurd (List.mem_singleton_self h) hmem
  · obtain rfl : h = handle := Option.some_inj.mp (hslot.symm.trans hhandle)
    refine ⟨⟨?_, fun handle hhandle => ?_⟩, ?_⟩
    · rw [hopened', hopened]
      simp
    · cases hslot'.symm.trans hhandle
    · rw [hown', hown, List.filter_append, List.filter_eq_self.mpr (by simpa using hlevel)]
      exact List.prefix_append _ _

/-- A record that is rejected closes the savepoint that it has opened, unless it has no handle of
it. -/
theorem Rejected.noneOpen {r : Except Exn Unit} (h : Rejected w first r w') (hw : w.NoneOpen pid) :
    (∀ mark, Disciplined mark first) ∧ (∀ x ∈ first, ¬ Accepts x) ∧
      first.Pairwise (fun x y => Orphans x → ¬ Opens y) ∧
      (r = .ok () → (w'.NoneOpen pid ∧ ∀ x ∈ first, ¬ Orphans x) ∨
        (w'.Orphaned pid ∧ ∃ x ∈ first, Orphans x)) := by
  cases h with
  | @begun c c' e r _ w₁ _ hbegin hcalm hback =>
      obtain ⟨hown, hcases⟩ := exec_beginNested_savepoints hbegin
      -- the slot has kept a handle of before, so the handler goes back to no open savepoint
      have hstale : ∀ h, w₁.slot pid = some h → h ∉ w₁.openSavepoints pid := by
        intro h hh
        obtain ⟨-, -, hopened, -⟩ | ⟨hopened, -, ⟨-, hslot⟩ | ⟨hr, -⟩⟩ := hcases
        · simp [hopened, hw.opened]
        · have hlt := hw.slot h (hslot ▸ hh)
          simp [hopened, hw.opened, hlt.ne]
        · cases hr
      obtain ⟨rfl, hslot⟩ := rollbackToSavepoint_stale hcalm hstale hback
      have hprefix : w.server.own pid <+: w'.server.own pid := ⟨[], by rw [List.append_nil, hown]⟩
      refine ⟨fun mark => ⟨fun _ => hw.opened, by simp,
        fun hx => absurd hx (not_opens_of_ne (by simp)), fun _ => hprefix, trivial⟩, ?_, ?_, fun hr => ?_⟩
      · simp [Accepts, Op.InsertsRows]
      · simp [Opens]
      · obtain ⟨-, hslot', hopened, hnext⟩ | ⟨hopened, -⟩ := hcases
        · refine Or.inl ⟨⟨hopened.trans hw.opened, by rw [hslot', hnext]; exact hw.slot⟩, ?_⟩
          simp [Orphans, Opens, hopened]
        · refine Or.inr ⟨⟨by simp [hopened], hslot hr⟩, _, List.mem_cons_self, ⟨rfl, ?_⟩, ?_⟩
          · simp [hopened]
          · simp [Transition.Returns]
  | @inserted c c' c'' s e r _ w₁ w₂ _ hs hbegin hinsert hcalm hback =>
      obtain ⟨hopened, hslot, -, hown, -⟩ := opens_of_ok hbegin
      obtain ⟨hopened', hslot', -, hown'⟩ := exec_insert_savepoints hs hinsert
      have hadded : ∃ added, w₂.server.own pid = w.server.own pid ++ added := by
        rw [← hown]
        obtain hown' | ⟨hown', -⟩ := hown'
        · exact ⟨_, hown'⟩
        · exact ⟨[], by rw [hown', List.append_nil]⟩
      obtain ⟨added, hadded⟩ := hadded
      rw [hw.opened] at hopened
      obtain ⟨hclean, hprefix⟩ := rollbackToSavepoint_last hcalm (hslot'.trans hslot)
        (hopened'.trans hopened) hadded (fun e => w.server.own_level_lt pid) hback
      refine ⟨fun mark => ⟨fun _ => hw.opened, by simp,
        fun hx => absurd hx (not_opens_of_ne (by simp)), by simp,
        fun hx => absurd hx (not_opens_of_ne (by simp)), fun _ => hprefix, trivial⟩, ?_, ?_,
        fun _ => Or.inl ⟨hclean, ?_⟩⟩
      · simp [Accepts, Op.InsertsRows, Transition.Returns]
      · simp [Opens]
      · simp [Orphans, Opens, Transition.Returns]
  | @uncommitted _ _ c₂ _ _ _ _ _ w₁ w₂ _ _ hs hbegin hinsert hcalm hcommit hcalm' hback =>
      -- a commit can close one savepoint
      obtain ⟨hopened, -⟩ := opens_of_ok hbegin
      obtain ⟨hopened', -⟩ := exec_insert_savepoints hs hinsert
      have hrunning := running_of_exec_ok (show Op.NeedsSession (.statement _) from trivial) hinsert
      have hdepth : (w₂.openSavepoints pid).length ≤ c₂.nested := by
        rw [hopened', hopened, hw.opened]
        exact c₂.nested.pos
      cases (exec_commit_calm w₂ hcalm hrunning hdepth).symm.trans hcommit

/-! ### A savepoint is open -/

/-- While a savepoint is open, an accepted record opens another one. -/
theorem Accepted.opens {commits : Bool} (h : Accepted commits w first w')
    (hw : w.openSavepoints pid ≠ []) : (∃ x ∈ first, Opens x) ∧ ∀ mark, ¬ Disciplined mark first := by
  cases h with
  | left hs hbegin hinsert =>
      obtain ⟨-, -, -, -, hopens⟩ := opens_of_ok hbegin
      exact ⟨⟨_, List.mem_cons_self, hopens⟩, fun mark hmark => hw (hmark.1 hopens)⟩
  | committed hs hbegin hinsert hcommit =>
      obtain ⟨-, -, -, -, hopens⟩ := opens_of_ok hbegin
      exact ⟨⟨_, List.mem_cons_self, hopens⟩, fun mark hmark => hw (hmark.1 hopens)⟩

/-- While a savepoint is open, a rejected record opens another one, or its `begin_nested` does
nothing. -/
theorem Rejected.opens {r : Except Exn Unit} (h : Rejected w first r w')
    (hw : w.openSavepoints pid ≠ []) :
    ((∃ x ∈ first, Opens x) ∧ ∀ mark, ¬ Disciplined mark first) ∨
      ∃ c c' e w₁, w₁.openSavepoints pid = w.openSavepoints pid ∧ w₁.slot pid = w.slot pid ∧
        w₁.server.own pid = w.server.own pid ∧ c'.fault = none ∧
        exec pid c' w₁ .rollbackToSavepoint = some (r, w') ∧
        first = [⟨.beginNested, c, w, .error e, w₁⟩, ⟨.rollbackToSavepoint, c', w₁, r, w'⟩] := by
  cases h with
  | @begun c c' e r _ w₁ _ hbegin hcalm hback =>
      by_cases hopens : Opens (⟨.beginNested, c, w, .error e, w₁⟩ : Call pid)
      · exact Or.inl ⟨⟨_, List.mem_cons_self, hopens⟩, fun mark hmark => hw (hmark.1 hopens)⟩
      · obtain ⟨hown, ⟨-, hslot, hopened, -⟩ | ⟨hopened, -⟩⟩ := exec_beginNested_savepoints hbegin
        · exact Or.inr ⟨c, c', e, w₁, hopened, hslot, hown, hcalm, hback, rfl⟩
        · exact absurd ⟨rfl, by simp [hopened]⟩ hopens
  | inserted hs hbegin hinsert hcalm hback =>
      obtain ⟨-, -, -, -, hopens⟩ := opens_of_ok hbegin
      exact Or.inl ⟨⟨_, List.mem_cons_self, hopens⟩, fun mark hmark => hw (hmark.1 hopens)⟩
  | uncommitted hs hbegin hinsert hcalm hcommit hcalm' hback =>
      obtain ⟨-, -, -, -, hopens⟩ := opens_of_ok hbegin
      exact Or.inl ⟨⟨_, List.mem_cons_self, hopens⟩, fun mark hmark => hw (hmark.1 hopens)⟩

/-- A record after an accepted row whose savepoint is open cannot be handled properly: it opens a
savepoint in the open one, or it undoes the row. -/
theorem Rejected.not_disciplined {r : Except Exn Unit} (h : Rejected w first r w')
    (hw : w.LeftOpen pid) :
    ∀ mark, ¬ Disciplined mark first := by
  obtain ⟨handle, hslot, hmem, e, he, hlevel⟩ := hw.handle
  obtain ⟨-, hnot⟩ | ⟨c, c', e', w₁, hopened, hslot₁, hown, hcalm, hback, rfl⟩ :=
    h.opens (List.ne_nil_of_mem hmem)
  · exact hnot
  intro mark hmark
  have hkept : w.server.own pid <+: w'.server.own pid := hmark.2.2.2.1 rfl
  rcases exec_rollbackToSavepoint_calm hcalm hback with ⟨hnone, -⟩ |
    ⟨handle', hhandle, ⟨hnot, -⟩ | ⟨-, -, -, -, hown'⟩⟩
  · cases (hslot₁.trans hslot).symm.trans hnone
  · obtain rfl : handle = handle' := Option.some_inj.mp ((hslot₁.trans hslot).symm.trans hhandle)
    exact hnot (hopened ▸ hmem)
  · obtain rfl : handle = handle' := Option.some_inj.mp ((hslot₁.trans hslot).symm.trans hhandle)
    have he' := hkept.subset he
    rw [hown'] at he'
    have hlt : e.level < handle := by simpa using (List.mem_filter.mp he').2
    omega

/-- While a savepoint is open that nobody holds, a record opens another one, or it does nothing. -/
theorem Rejected.orphaned {r : Except Exn Unit} (h : Rejected w first r w') (hw : w.Orphaned pid) :
    ((∃ x ∈ first, Opens x) ∧ ∀ mark, ¬ Disciplined mark first) ∨
      ((∀ x ∈ first, ¬ Opens x ∧ ¬ Accepts x) ∧ (∀ mark, Disciplined mark first) ∧
        w'.Orphaned pid) := by
  obtain hopens | ⟨c, c', e, w₁, hopened, hslot, hown, hcalm, hback, rfl⟩ := h.opens hw.opened
  · exact Or.inl hopens
  refine Or.inr ?_
  have hslot₁ := hslot.trans hw.slot
  obtain ⟨rfl, -⟩ := rollbackToSavepoint_stale hcalm (fun h hh => by cases hslot₁.symm.trans hh) hback
  have hnot : ¬ Opens (⟨.beginNested, c, w, .error e, w'⟩ : Call pid) := fun hx => hx.2 hopened
  have hprefix : w.server.own pid <+: w'.server.own pid := ⟨[], by rw [List.append_nil, hown]⟩
  refine ⟨?_, fun mark => ⟨fun hx => absurd hx hnot, by simp,
    fun hx => absurd hx (not_opens_of_ne (by simp)),
    fun _ => hprefix, trivial⟩, hopened ▸ hw.opened, hslot₁⟩
  intro x hx
  rcases List.mem_cons.mp hx with rfl | hx
  · exact ⟨hnot, fun hx => hx.1.elim⟩
  · obtain rfl := List.mem_singleton.mp hx
    exact ⟨not_opens_of_ne (by simp), fun hx => hx.1.elim⟩

/-! ### The whole loop -/

/-- No accepted row is followed by another record, unless the loop commits, and after a savepoint
that was left without a handle none is opened. -/
def Unstacked (commits : Bool) (log : List (Call pid)) : Prop :=
  (commits = false → log.Pairwise fun x y => Accepts x → y.op ≠ .beginNested) ∧
    log.Pairwise fun x y => Orphans x → ¬ Opens y

/-- An accepted row has called `begin_nested`. -/
theorem Accepted.begins {commits : Bool} (h : Accepted commits w first w') :
    ∃ x ∈ first, x.op = .beginNested := by
  cases h <;> exact ⟨_, List.mem_cons_self, rfl⟩

/-- A rejected row has called `begin_nested`. -/
theorem Rejected.begins {r : Except Exn Unit} (h : Rejected w first r w') :
    ∃ x ∈ first, x.op = .beginNested := by
  cases h <;> exact ⟨_, List.mem_cons_self, rfl⟩

/-- Every record after an accepted row whose savepoint is open is a breach. -/
theorem RowLoop.leftOpen {commits : Bool} (h : RowLoop commits w log w') (hw : w.LeftOpen pid) :
    log = [] ∨ (∃ x ∈ log, x.op = .beginNested) ∧ ∀ mark, ¬ Disciplined mark log := by
  have hopen : w.openSavepoints pid ≠ [] := by
    obtain ⟨handle, -, hmem, -⟩ := hw.handle
    exact List.ne_nil_of_mem hmem
  have hfirst : ∀ {first rest : List (Call pid)}, (∃ x ∈ first, x.op = .beginNested) →
      (∀ mark, ¬ Disciplined mark first) → (∃ x ∈ first ++ rest, x.op = .beginNested) ∧
        ∀ mark, ¬ Disciplined mark (first ++ rest) := by
    rintro first rest ⟨x, hx, hop⟩ hnot
    exact ⟨⟨x, List.mem_append_left _ hx, hop⟩, fun mark hmark => hnot mark hmark.append_left⟩
  cases h with
  | nil => exact Or.inl rfl
  | accept hrow _ => exact Or.inr (hfirst hrow.begins (hrow.opens hopen).2)
  | reject hrow _ => exact Or.inr (hfirst hrow.begins (hrow.not_disciplined hw))
  | stop hrow => exact Or.inr ⟨hrow.begins, hrow.not_disciplined hw⟩

/-- After a savepoint that was left without a handle, the first one that is opened is a breach. -/
theorem RowLoop.orphaned {commits : Bool} (h : RowLoop commits w log w') (hw : w.Orphaned pid) :
    ((∃ x ∈ log, Opens x) ∧ ∀ mark, ¬ Disciplined mark log) ∨
      ((∀ x ∈ log, ¬ Opens x ∧ ¬ Accepts x) ∧ ∀ mark, Disciplined mark log) := by
  have hfirst : ∀ {first rest : List (Call pid)},
      (∃ x ∈ first, Opens x) ∧ (∀ mark, ¬ Disciplined mark first) →
      (∃ x ∈ first ++ rest, Opens x) ∧ ∀ mark, ¬ Disciplined mark (first ++ rest) := by
    rintro first rest ⟨⟨x, hx, hopens⟩, hnot⟩
    exact ⟨⟨x, List.mem_append_left _ hx, hopens⟩, fun mark hmark => hnot mark hmark.append_left⟩
  induction h with
  | nil => exact Or.inr ⟨by simp, fun _ => trivial⟩
  | accept hrow _ _ => exact Or.inl (hfirst (hrow.opens hw.opened))
  | reject hrow _ ih =>
      obtain hopens | ⟨hquiet, hmark, hw₁⟩ := hrow.orphaned hw
      · exact Or.inl (hfirst hopens)
      · obtain ⟨⟨x, hx, hopens⟩, hnot⟩ | ⟨hquiet', hmark'⟩ := ih hw₁
        · exact Or.inl ⟨⟨x, List.mem_append_right _ hx, hopens⟩, not_disciplined_append hnot⟩
        · refine Or.inr ⟨fun x hx => ?_, fun mark => (hmark mark).append hmark'⟩
          rcases List.mem_append.mp hx with hx | hx
          · exact hquiet x hx
          · exact hquiet' x hx
  | stop hrow =>
      obtain hopens | ⟨hquiet, hmark, -⟩ := hrow.orphaned hw
      · exact Or.inl hopens
      · exact Or.inr ⟨hquiet, hmark⟩

/-- A first part that is always disciplined does not matter. -/
theorem disciplined_append_iff {P : Prop} (hfirst : ∀ mark, Disciplined mark first)
    (hrest : ∀ mark, Disciplined mark rest ↔ P) (mark : List (Txn.Entry Pid Write)) :
    Disciplined mark (first ++ rest) ↔ P := by
  refine ⟨fun h => ?_, fun h => (hfirst mark).append fun mark' => (hrest mark').mpr h⟩
  obtain ⟨mark', h'⟩ := h.append_right
  exact (hrest mark').mp h'

/-- A first part that accepts no row and leaves no savepoint behind does not matter. -/
theorem unstacked_append_iff {commits : Bool} (horphans : ∀ x ∈ first, ¬ Orphans x)
    (haccepts : commits = false → ∀ x ∈ first, ¬ Accepts x) :
    Unstacked commits (first ++ rest) ↔ Unstacked commits rest := by
  refine ⟨fun h => ⟨fun hc => ?_, (List.pairwise_append.mp h.2).2.1⟩, fun h => ⟨fun hc => ?_, ?_⟩⟩
  · exact (List.pairwise_append.mp (h.1 hc)).2.1
  · refine List.pairwise_append.mpr ⟨?_, h.1 hc, fun x hx y _ hacc => absurd hacc (haccepts hc x hx)⟩
    exact pairwise_of_none (haccepts hc)
  · refine List.pairwise_append.mpr ⟨?_, h.2, fun x hx y _ horphan => absurd horphan (horphans x hx)⟩
    exact pairwise_of_none horphans

/-- The loop is disciplined exactly when it does not stack savepoints. -/
theorem RowLoop.disciplined_iff {commits : Bool} (h : RowLoop commits w log w')
    (hw : w.NoneOpen pid) (mark : List (Txn.Entry Pid Write)) :
    Disciplined mark log ↔ Unstacked commits log := by
  induction h generalizing mark with
  | nil => exact iff_of_true trivial ⟨fun _ => .nil, .nil⟩
  | @accept w w₁ w' first rest hrow hrest ih =>
      obtain ⟨hmark, horphans, hcommits, hleft⟩ := hrow.noneOpen hw
      cases commits with
      | true =>
          rw [unstacked_append_iff horphans fun hc => by cases hc]
          exact disciplined_append_iff hmark (ih (hcommits rfl)) mark
      | false =>
          obtain ⟨hw₁, ⟨x, hx, hacc⟩, halone⟩ := hleft rfl
          obtain rfl | ⟨⟨y, hy, hop⟩, hnot⟩ := hrest.leftOpen hw₁
          · rw [List.append_nil]
            exact iff_of_true (hmark mark) ⟨fun _ => halone, pairwise_of_none horphans⟩
          · -- the savepoint of the accepted row is open when the next record opens another one
            refine iff_of_false (not_disciplined_append hnot mark) fun h => ?_
            exact (List.pairwise_append.mp (h.1 rfl)).2.2 x hx y hy hacc hop
  | @reject w w₁ w' first rest hrow hrest ih =>
      obtain ⟨hmark, haccepts, horphans, hnext⟩ := hrow.noneOpen hw
      obtain ⟨hw₁, hno⟩ | ⟨hw₁, x, hx, horphan⟩ := hnext rfl
      · rw [unstacked_append_iff hno fun _ => haccepts]
        exact disciplined_append_iff hmark (ih hw₁) mark
      · obtain ⟨⟨y, hy, hopens⟩, hnot⟩ | ⟨hquiet, hmark'⟩ := hrest.orphaned hw₁
        · -- the savepoint without a handle is open when another one is opened
          refine iff_of_false (not_disciplined_append hnot mark) fun h => ?_
          exact (List.pairwise_append.mp h.2).2.2 x hx y hy horphan hopens
        · refine iff_of_true ((hmark mark).append hmark') ⟨fun _ => ?_, ?_⟩
          · refine pairwise_of_none fun x hx => ?_
            rcases List.mem_append.mp hx with hx | hx
            · exact haccepts x hx
            · exact (hquiet x hx).2
          · refine List.pairwise_append.mpr ⟨horphans, ?_, fun x _ y hy _ => (hquiet y hy).1⟩
            exact List.pairwise_of_forall_mem_list fun x _ y hy _ => (hquiet y hy).1
  | stop hrow =>
      obtain ⟨hmark, haccepts, horphans, -⟩ := hrow.noneOpen hw
      exact iff_of_true (hmark mark) ⟨fun _ => pairwise_of_none haccepts, horphans⟩

/-! ## The loops of the source -/

/-- The faults in the first part of a log. -/
theorem FaultsInRecords.left (h : FaultsInRecords (first ++ rest)) : FaultsInRecords first :=
  fun x hx => h x (List.mem_append_left _ hx)

/-- The faults in the second part of a log. -/
theorem FaultsInRecords.right (h : FaultsInRecords (first ++ rest)) : FaultsInRecords rest :=
  fun x hx => h x (List.mem_append_right _ hx)

/-- A call that is neither `begin_nested` nor an insert of rows is not made to raise. -/
theorem FaultsInRecords.calm {x : Call pid} (h : FaultsInRecords (x :: log)) (hop : x.op ≠ .beginNested)
    (hrows : ¬ x.op.InsertsRows) : x.choice.fault = none := by
  rcases hc : x.choice.fault with _ | f
  · rfl
  · rcases (h x List.mem_cons_self f hc).2 with h' | h'
    · exact absurd h' hop
    · exact absurd h' hrows

/-- What a commit raises by itself is no `OperationalError`. -/
theorem isOperational_of_commit {e : Exn} (hc : c.fault = none)
    (h : exec pid c w .commit = some (.error e, w')) : e.isOperational = false := by
  rw [exec_undisturbed hc] at h
  simp only [attempt] at h
  split at h
  · cases h
    rfl
  split at h
  all_goals cases h
  rfl

/-- The calls of a record before its handler: `begin_nested`, the insert of the row or its commit
raises `e`. -/
def RaisedIn (s : Statement) (w : World) (log : List (Call pid)) (e : Exn) (w' : World) : Prop :=
  (∃ c, log = [⟨.beginNested, c, w, .error e, w'⟩] ∧
      exec pid c w .beginNested = some (.error e, w')) ∨
    (∃ c c' w₁, log = [⟨.beginNested, c, w, .ok (), w₁⟩, ⟨.statement s, c', w₁, .error e, w'⟩] ∧
      exec pid c w .beginNested = some (.ok (), w₁) ∧
      exec pid c' w₁ (.statement s) = some (.error e, w')) ∨
    ∃ c c' c₂ w₁ w₂, log = [⟨.beginNested, c, w, .ok (), w₁⟩, ⟨.statement s, c', w₁, .ok (), w₂⟩,
        ⟨.commit, c₂, w₂, .error e, w'⟩] ∧
      exec pid c w .beginNested = some (.ok (), w₁) ∧
      exec pid c' w₁ (.statement s) = some (.ok (), w₂) ∧ c₂.fault = none ∧
      exec pid c₂ w₂ .commit = some (.error e, w')

/-- The `try` of a record raises in `begin_nested`, in the insert or in the commit, when nothing else
follows the insert. -/
theorem raisedIn_of_body {α : Type} {s : Statement} {next : Unit → Prog α} {e : Exn}
    (hs : (Op.statement s).InsertsRows) (hf : FaultsInRecords log)
    (hnext : ∀ {w₂ : World} {rest : List (Call pid)}, FaultsInRecords rest →
      (next ()).Traces (machine pid) w₂ rest (.error e) w' →
      ∃ c, rest = [⟨.commit, c, w₂, .error e, w'⟩] ∧ c.fault = none ∧
        exec pid c w₂ .commit = some (.error e, w'))
    (h : (Uow.beginNested.bind fun _ => (call (.statement s)).bind next).Traces (machine pid) w log
      (.error e) w') : e.isOperational = false ∧ RaisedIn s w log e w' := by
  obtain ⟨c, r, w₁, rest, hbegin, rfl, ⟨_, rfl, h₁⟩ | ⟨_, rfl, rfl, he, rfl⟩⟩ := h.request_bind_inv
  · obtain ⟨c', r', w₂, rest', hinsert, rfl, ⟨_, rfl, h₂⟩ | ⟨_, rfl, rfl, he, rfl⟩⟩ :=
      h₁.request_bind_inv
    · obtain ⟨c₂, rfl, hcalm, hcommit⟩ := hnext
        (fun x hx => hf x (List.mem_cons_of_mem _ (List.mem_cons_of_mem _ hx))) h₂
      exact ⟨isOperational_of_commit hcalm hcommit,
        Or.inr (Or.inr ⟨c, c', c₂, w₁, w₂, rfl, hbegin, hinsert, hcalm, hcommit⟩)⟩
    · cases he
      have hc' := fun f hfault => (hf _ (List.mem_cons_of_mem _ List.mem_cons_self) f hfault).1
      exact ⟨isOperational_of_exec (Or.inr hs) hc' hinsert,
        Or.inr (Or.inl ⟨c, c', w₁, rfl, hbegin, hinsert⟩)⟩
  · cases he
    have hc := fun f hfault => (hf _ List.mem_cons_self f hfault).1
    exact ⟨isOperational_of_exec (Or.inl rfl) hc hbegin, Or.inl ⟨c, rfl, hbegin⟩⟩

/-- The handler of a record that is rejected, with the calls of the `try` before it. -/
theorem rejected_of_handler {α : Type} {a : α} {s : Statement} {e : Exn} {w₁ : World}
    {out : Except Exn α} (hs : (Op.statement s).InsertsRows) (hf : FaultsInRecords rest)
    (hbody : RaisedIn s w first e w₁)
    (hhandler : (Uow.rollbackToSavepoint.bind fun _ => (.pure a : Prog α)).Traces (machine pid) w₁ rest
      out w') :
    (∃ a, out = .ok a ∧ Rejected w (first ++ rest) (.ok ()) w') ∨
      ∃ e', out = .error e' ∧ Rejected w (first ++ rest) (.error e') w' := by
  obtain ⟨c'', r, w₂, rest', hback, rfl, hend⟩ := hhandler.request_bind_inv
  have hcalm := hf.calm (by simp) (fun h => h.elim)
  have hrejected : rest' = [] → w' = w₂ → Rejected w (first ++ [⟨.rollbackToSavepoint, c'', w₁, r, w₂⟩])
      r w' := by
    rintro rfl rfl
    obtain ⟨c, rfl, hbegin⟩ | ⟨c, c', w₀, rfl, hbegin, hinsert⟩ |
      ⟨c, c', c₂, w₀, w₃, rfl, hbegin, hinsert, hcalm₂, hcommit⟩ := hbody
    · exact .begun hbegin hcalm hback
    · exact .inserted hs hbegin hinsert hcalm hback
    · exact .uncommitted hs hbegin hinsert hcalm₂ hcommit hcalm hback
  obtain ⟨_, rfl, hpure⟩ | ⟨e', rfl, rfl, rfl, rfl⟩ := hend
  · cases hpure
    exact Or.inl ⟨_, rfl, hrejected rfl rfl⟩
  · exact Or.inr ⟨_, rfl, hrejected rfl rfl⟩

/-- The course of one record: it returns when the row is accepted or rejected, and raises when going
back to the savepoint does. -/
def RowCourse {α : Type} (commits : Bool) (w : World) (log : List (Call pid)) (out : Except Exn α)
    (w' : World) : Prop :=
  (∃ a, out = .ok a ∧ (Accepted commits w log w' ∨ Rejected w log (.ok ()) w')) ∨
    ∃ e e', out = .error e ∧ Rejected w log (.error e') w'

/-- The course of a row of an ingestion. -/
theorem insertRecord_course {t : ReferenceTable} {u : BatchId} {acc : ℕ × List String}
    {record : ReferenceRecord} {out : Except Exn (ℕ × List String)}
    (h : (IngestReference.insertRecord t u acc record).Traces (machine pid) w log out w')
    (hf : FaultsInRecords log) : RowCourse false w log out w' := by
  have hs : (Op.statement (.insertReference t [record.toRow u])).InsertsRows := trivial
  obtain ⟨acc', rfl, hbody⟩ | ⟨e, first, rest, w₁, rfl, hbody, hhandler⟩ := h.tryExcept_inv
  · obtain ⟨c, r, w₁, rest, hbegin, rfl, ⟨_, rfl, h₁⟩ | ⟨e, -, -, he, -⟩⟩ := hbody.request_bind_inv
    · obtain ⟨c', r', w₂, rest', hinsert, rfl, ⟨_, rfl, h₂⟩ | ⟨e, -, -, he, -⟩⟩ := h₁.request_bind_inv
      · cases h₂
        exact Or.inl ⟨_, rfl, Or.inl (.left hs hbegin hinsert)⟩
      · cases he
    · cases he
  · obtain ⟨he, hraised⟩ := raisedIn_of_body hs hf.left (fun _ hpure => by cases hpure) hbody
    rw [if_neg (by simp [he])] at hhandler
    obtain ⟨acc', rfl, hrejected⟩ | ⟨e', rfl, hrejected⟩ :=
      rejected_of_handler hs hf.right hraised hhandler
    · exact Or.inl ⟨_, rfl, Or.inr hrejected⟩
    · exact Or.inr ⟨_, _, rfl, hrejected⟩

/-- The course of a row of the worker. -/
theorem writeRow_course {b : BatchId} {errors : List String} {record : EmployeeRecord}
    {out : Except Exn (List String)}
    (h : (writeRow b errors record).Traces (machine pid) w log out w')
    (hf : FaultsInRecords log) : RowCourse true w log out w' := by
  have hs : (Op.statement (.insertEmployees [record.values b])).InsertsRows := trivial
  obtain ⟨errors', rfl, hbody⟩ | ⟨e, first, rest, w₁, rfl, hbody, hhandler⟩ := h.tryExcept_inv
  · obtain ⟨c, r, w₁, rest, hbegin, rfl, ⟨_, rfl, h₁⟩ | ⟨e, -, -, he, -⟩⟩ := hbody.request_bind_inv
    · obtain ⟨c', r', w₂, rest', hinsert, rfl, ⟨_, rfl, h₂⟩ | ⟨e, -, -, he, -⟩⟩ := h₁.request_bind_inv
      · obtain ⟨c'', r'', w₃, rest'', hcommit, rfl, ⟨_, rfl, h₃⟩ | ⟨e, -, -, he, -⟩⟩ :=
          h₂.request_bind_inv
        · cases h₃
          exact Or.inl ⟨_, rfl, Or.inl (.committed hs hbegin hinsert hcommit)⟩
        · cases he
      · cases he
    · cases he
  · -- after the insert there is only the commit, which nothing makes raise
    have hcommits : ∀ {w₂ : World} {rest : List (Call pid)}, FaultsInRecords rest →
        (Uow.commit.bind fun _ => (.pure errors : Prog (List String))).Traces (machine pid) w₂ rest
          (.error e) w₁ → ∃ c, rest = [⟨.commit, c, w₂, .error e, w₁⟩] ∧ c.fault = none ∧
            exec pid c w₂ .commit = some (.error e, w₁) := by
      intro w₂ rest hrest hcommit
      obtain ⟨c, r, w₃, rest', hexec, rfl, ⟨_, -, hpure⟩ | ⟨_, rfl, rfl, he, rfl⟩⟩ :=
        hcommit.request_bind_inv
      · cases hpure
      · cases he
        exact ⟨c, rfl, hrest.calm (by simp) fun h => h.elim, hexec⟩
    obtain ⟨he, hraised⟩ := raisedIn_of_body hs hf.left hcommits hbody
    rw [if_neg (by simp [he])] at hhandler
    obtain ⟨errors', rfl, hrejected⟩ | ⟨e', rfl, hrejected⟩ :=
      rejected_of_handler hs hf.right hraised hhandler
    · exact Or.inl ⟨_, rfl, Or.inr hrejected⟩
    · exact Or.inr ⟨_, _, rfl, hrejected⟩

/-- A loop whose records take this course is a row loop. -/
theorem rowLoop_of_traces {α β : Type} {f : β → α → Prog β} {commits : Bool}
    (hrow : ∀ {b : β} {a : α} {w w' : World} {log : List (Call pid)} {out : Except Exn β},
      (f b a).Traces (machine pid) w log out w' → FaultsInRecords log →
      RowCourse commits w log out w') {xs : List α} {b : β} {out : Except Exn β}
    (h : (xs.foldlM f b).Traces (machine pid) w log out w') (hf : FaultsInRecords log) :
    RowLoop commits w log w' := by
  induction xs generalizing b w log with
  | nil =>
      cases h
      exact .nil
  | cons x xs ih =>
      rw [List.foldlM_cons] at h
      obtain ⟨b', first, rest, w₁, rfl, hfirst, hrest⟩ | ⟨e, -, hfirst⟩ := h.bind_inv
      · obtain ⟨_, -, haccepted | hrejected⟩ | ⟨_, _, he, -⟩ := hrow hfirst hf.left
        · exact .accept haccepted (ih hrest hf.right)
        · exact .reject hrejected (ih hrest hf.right)
        · cases he
      · obtain ⟨_, he, -⟩ | ⟨_, _, -, hrejected⟩ := hrow hfirst hf
        · cases he
        · exact .stop hrejected

/-! ## Whole runs -/

theorem openSavepoints_failIf {aborts : Bool} :
    (w.failIf pid aborts).openSavepoints pid = w.openSavepoints pid :=
  failIf_savepoints pid

/-- Going back to a savepoint closes it and those inside it. -/
theorem rollbackTo_depth {handle : ℕ} {server : Txn.Server Pid Db Write}
    (hto : w.server.rollbackTo pid handle = some server) :
    (server.sessions pid).savepoints.length ≤ (w.openSavepoints pid).length := by
  obtain ⟨-, -, -, -, -, hsessions⟩ := w.server.rollbackTo_spec hto
  rw [hsessions, Function.update_self, Txn.Session.popTo_savepoints]
  exact List.length_filter_le _ _

/-- Going back to a savepoint opens none. -/
theorem exec_rollbackToSavepoint_depth {r : Except Exn Unit}
    (h : exec pid c w .rollbackToSavepoint = some (r, w')) :
    (w'.openSavepoints pid).length ≤ (w.openSavepoints pid).length := by
  rcases exec_cases h with hattempt | ⟨f, -, -, rfl⟩
  · simp only [attempt] at hattempt
    rcases hslot : w.slot pid with _ | handle
    · simp only [hslot] at hattempt
      cases hattempt
      exact Nat.le_refl _
    rcases hto : w.server.rollbackTo pid handle with _ | server
    · simp only [hslot, hto] at hattempt
      cases hattempt
      exact Nat.le_refl _
    · simp only [hslot, hto] at hattempt
      cases hattempt
      exact rollbackTo_depth hto
  · rw [openSavepoints_failIf, disturbed]
    rcases w.slot pid with _ | handle
    · exact Nat.le_refl _
    rcases hto : w.server.rollbackTo pid handle with _ | server
    · simp only [hto]
      exact Nat.le_refl _
    · simp only [hto]
      split
      · exact rollbackTo_depth hto
      · exact Nat.le_refl _

/-- A rollback opens no savepoint. -/
theorem exec_rollback_depth {r : Except Exn Unit} (h : exec pid c w .rollback = some (r, w')) :
    (w'.openSavepoints pid).length ≤ (w.openSavepoints pid).length := by
  have hclear : (({ w with server := w.server.rollback pid } : World).openSavepoints pid).length ≤
      (w.openSavepoints pid).length := by
    simp [World.openSavepoints]
  rcases exec_cases h with hattempt | ⟨f, -, -, rfl⟩
  · cases hattempt
    exact hclear
  · rw [openSavepoints_failIf, disturbed]
    split
    · exact hclear
    · exact Nat.le_refl _

/-- Only a `begin_nested` opens a savepoint, and only one. -/
theorem exec_depth {op : Op} {r : Except Exn (Reply op)} (h : exec pid c w op = some (r, w')) :
    (w'.openSavepoints pid).length ≤ (w.openSavepoints pid).length ∨
      (op = .beginNested ∧
        w'.openSavepoints pid = (w.server.sessions pid).next :: w.openSavepoints pid) := by
  have hsame : w'.openSavepoints pid = w.openSavepoints pid →
      (w'.openSavepoints pid).length ≤ (w.openSavepoints pid).length :=
    fun heq => (congrArg List.length heq).le
  have hnone : w'.openSavepoints pid = [] →
      (w'.openSavepoints pid).length ≤ (w.openSavepoints pid).length :=
    fun heq => by rw [heq]; exact Nat.zero_le _
  cases op with
  | statement s => exact Or.inl (hsame (exec_statement h).2.2.1)
  | commit =>
      rcases exec_commit h with ⟨hpublished, -⟩ | ⟨-, -, -, -, -, -, hsuffix⟩
      · exact Or.inl (hnone hpublished.savepoints)
      · exact Or.inl hsuffix.length_le
  | rollback => exact Or.inl (exec_rollback_depth h)
  | beginNested =>
      obtain ⟨-, ⟨-, -, heq, -⟩ | ⟨hopened, -⟩⟩ := exec_beginNested_savepoints h
      · exact Or.inl (hsame heq)
      · exact Or.inr ⟨rfl, hopened⟩
  | rollbackToSavepoint => exact Or.inl (exec_rollbackToSavepoint_depth h)
  | _ =>
      refine Or.inl (hsame ?_)
      rcases exec_cases h with hattempt | ⟨f, -, -, rfl⟩
      · simp only [attempt] at hattempt
        all_goals (try split at hattempt)
        all_goals (cases hattempt; rfl)
      · rw [openSavepoints_failIf]
        simp only [disturbed]
        all_goals (try split)
        all_goals rfl

/-- In disciplined calls, from a session without savepoints, at most one savepoint is open. -/
theorem Disciplined.depth_le_one {α : Type} {p : Prog α} {out : Except Exn α}
    (h : p.Traces (machine pid) w log out w') (hw : (w.openSavepoints pid).length ≤ 1)
    (hlog : Disciplined mark log) : ∀ x ∈ log, (x.after.openSavepoints pid).length ≤ 1 := by
  induction h generalizing mark with
  | pure => simp
  | throw => simp
  | @call i k c r s s₁ s' log out hstep hrest ih =>
      have hfirst : (s₁.openSavepoints pid).length ≤ 1 := by
        obtain hle | ⟨hop, hopened⟩ := exec_depth hstep
        · exact hle.trans hw
        · have hnone : s.openSavepoints pid = [] := hlog.1 ⟨hop, by
            show s₁.openSavepoints pid ≠ s.openSavepoints pid
            rw [hopened]
            exact List.cons_ne_self _ _⟩
          rw [hopened, hnone]
          exact Nat.le_refl 1
      intro x hx
      rcases List.mem_cons.mp hx with rfl | hx
      · exact hfirst
      · exact ih hfirst hlog.2.2 x hx

/-- The call neither asks for a savepoint nor goes back to one. -/
def Op.Plain (op : Op) : Prop := op ≠ .beginNested ∧ op ≠ .rollbackToSavepoint

/-- Plain calls are disciplined. -/
theorem disciplined_of_plain (h : ∀ x ∈ log, x.op.Plain) : ∀ mark, Disciplined mark log := by
  induction log with
  | nil => exact fun _ => trivial
  | cons x log ih =>
      intro mark
      refine ⟨fun hopens => absurd hopens.1 (h x List.mem_cons_self).1,
        fun hop => absurd hop (h x List.mem_cons_self).2, ?_⟩
      exact ih (fun y hy => h y (List.mem_cons_of_mem x hy)) _

/-- Plain calls after the loop change nothing. -/
theorem unstacked_append_plain {commits : Bool} (h : ∀ x ∈ rest, x.op.Plain) :
    Unstacked commits (first ++ rest) ↔ Unstacked commits first := by
  constructor
  · intro hall
    refine ⟨fun hc => ?_, (List.pairwise_append.mp hall.2).1⟩
    exact (List.pairwise_append.mp (hall.1 hc)).1
  · intro hfirst
    refine ⟨fun hc => ?_, ?_⟩
    · refine List.pairwise_append.mpr ⟨hfirst.1 hc, ?_, fun _ _ y hy _ => (h y hy).1⟩
      exact List.pairwise_of_forall_mem_list fun _ _ y hy _ => (h y hy).1
    · refine List.pairwise_append.mpr ⟨hfirst.2, ?_, fun _ _ y hy _ => not_opens_of_ne (h y hy).1⟩
      exact List.pairwise_of_forall_mem_list fun _ _ y hy _ => not_opens_of_ne (h y hy).1

/-- The calls of the bulk path. -/
def Op.OfBulk (op : Op) : Prop := (∃ s, op = .statement s) ∨ op = .commit

/-- The bulk path makes no calls for savepoints. -/
theorem Op.OfBulk.plain {op : Op} (h : op.OfBulk) : op.Plain := by
  obtain ⟨s, rfl⟩ | rfl := h
  · exact ⟨nofun, nofun⟩
  · exact ⟨nofun, nofun⟩

section Ingestion

variable {t : ReferenceTable} {u : BatchId} {records : List ReferenceRecord}

/-- The calls of the bulk insert. -/
theorem uses_bulk_ofBulk : (IngestReference.bulk t u records).Uses Op.OfBulk :=
  Program.Uses.bind (Program.uses_request (Or.inl ⟨_, rfl⟩)) fun _ =>
    Program.Uses.bind (Program.uses_request (Or.inl ⟨_, rfl⟩)) fun _ =>
      Program.Uses.bind (Program.uses_request (Or.inl ⟨_, rfl⟩)) fun _ =>
        Program.Uses.bind (Program.uses_request (Or.inr rfl)) fun _ => trivial

/-- The calls at the end of an ingestion. -/
theorem uses_commitCreated_ofBulk (okCount : ℕ) :
    (IngestReference.commitCreated u okCount).Uses Op.OfBulk := by
  unfold IngestReference.commitCreated
  by_cases hcount : okCount = 0
  · rw [if_pos hcount]
    trivial
  · rw [if_neg hcount]
    exact Program.Uses.bind (Program.uses_request (Or.inl ⟨_, rfl⟩)) fun _ =>
      Program.uses_request (Or.inr rfl)

/-- Statements, commits and rollbacks open no savepoint and leave the slot alone. -/
theorem World.NoneOpen.step {op : Op} {r : Except Exn (Reply op)} (hw : w.NoneOpen pid)
    (hop : op.OfBulk ∨ op = .rollback) (h : exec pid c w op = some (r, w')) : w'.NoneOpen pid := by
  have hkeep : w'.slot = w.slot → (w'.server.sessions pid).next = (w.server.sessions pid).next →
      ∀ handle, w'.slot pid = some handle → handle < (w'.server.sessions pid).next := by
    intro hslot hnext
    rw [hslot, hnext]
    exact hw.slot
  refine ⟨?_, ?_⟩
  · obtain hle | ⟨rfl, -⟩ := exec_depth h
    · rw [hw.opened] at hle
      exact List.eq_nil_of_length_eq_zero (Nat.le_zero.mp hle)
    · obtain (⟨s, hs⟩ | hs) | hs := hop <;> cases hs
  · obtain (⟨s, rfl⟩ | rfl) | rfl := hop
    · obtain ⟨-, hslot, -, hnext, -⟩ := exec_statement h
      exact hkeep hslot hnext
    · obtain ⟨hpublished, -⟩ | ⟨-, -, -, hslot, -, hnext, -⟩ := exec_commit h
      · exact hkeep hpublished.slot hpublished.next
      · exact hkeep hslot hnext
    · obtain ⟨-, hslot, hnext, -⟩ := exec_rollback h
      exact hkeep hslot hnext

/-- A bulk path that raises, when only inserts are made to raise, has not inserted the rows. -/
theorem bulk_not_accepts {e : Exn} (hw : w.NoneOpen pid)
    (h : (IngestReference.bulk t u records).Traces (machine pid) w log (.error e) w')
    (hf : FaultsInRecords log) : ∀ x ∈ log, ¬ Accepts x := by
  obtain ⟨c₁, r₁, w₁, rest₁, hadd, rfl, ⟨_, rfl, h₁⟩ | ⟨_, -, rfl, -⟩⟩ := h.request_bind_inv
  rotate_left
  · simp [Accepts, Op.InsertsRows]
  obtain ⟨c₂, r₂, w₂, rest₂, hinsert, rfl, ⟨_, rfl, h₂⟩ | ⟨_, rfl, rfl, -⟩⟩ := h₁.request_bind_inv
  rotate_left
  · simp [Accepts, Op.InsertsRows, Transition.Returns]
  have hrunning := running_of_exec_ok (show Op.NeedsSession (.statement _) from trivial) hinsert
  obtain ⟨c₃, r₃, w₃, rest₃, hupdate, rfl, h₃⟩ := h₂.request_bind_inv
  have hf₃ : FaultsInRecords _ := fun x hx => hf x (List.mem_cons_of_mem _ (List.mem_cons_of_mem _ hx))
  have hcalm : c₃.fault = none := hf₃.calm (by simp) fun h => h.elim
  obtain ⟨rfl, hrunning', -⟩ := exec_updateStatus_calm w₂ hcalm hrunning hupdate
  obtain ⟨_, -, h₃⟩ | ⟨_, he, -⟩ := h₃
  · obtain ⟨c₄, r₄, w₄, rest₄, hcommit, rfl, h₄⟩ := h₃.request_bind_inv
    have hf₄ : FaultsInRecords _ := fun x hx => hf₃ x (List.mem_cons_of_mem _ hx)
    -- the bulk path opens no savepoint
    have hw₃ : w₃.NoneOpen pid := ((hw.step (Or.inl (Or.inl ⟨_, rfl⟩)) hadd).step
      (Or.inl (Or.inl ⟨_, rfl⟩)) hinsert).step (Or.inl (Or.inl ⟨_, rfl⟩)) hupdate
    have hdepth : (w₃.openSavepoints pid).length ≤ c₄.nested := by
      rw [hw₃.opened]
      exact Nat.zero_le _
    cases (exec_commit_calm w₃ (hf₄.calm (by simp) fun h => h.elim) hrunning' hdepth).symm.trans
      hcommit
    obtain ⟨_, -, h₄⟩ | ⟨_, he, -⟩ := h₄
    · cases h₄
    · cases he
  · cases he

/-- Calls before the loop change nothing. -/
theorem disciplined_iff_of_append {commits : Bool} (hplain : ∀ x ∈ first, x.op.Plain)
    (haccepts : ∀ x ∈ first, ¬ Accepts x)
    (hrest : ∀ mark, Disciplined mark rest ↔ Unstacked commits rest)
    (mark : List (Txn.Entry Pid Write)) :
    Disciplined mark (first ++ rest) ↔ Unstacked commits (first ++ rest) := by
  rw [unstacked_append_iff (fun x hx h => not_opens_of_ne (hplain x hx).1 h.1) fun _ => haccepts]
  exact disciplined_append_iff (disciplined_of_plain hplain) hrest mark

/-- The fallback is disciplined if and only if no accepted row is stacked upon. -/
theorem fallback_disciplined_iff {out : Except Exn IngestionResponse}
    (h : (IngestReference.fallback t u records).Traces (machine pid) w log out w')
    (hw : w.NoneOpen pid) (hf : FaultsInRecords log) (mark : List (Txn.Entry Pid Write)) :
    Disciplined mark log ↔ Unstacked false log := by
  obtain ⟨c, r, w₁, rest, hadd, rfl, h₁⟩ := h.request_bind_inv
  show Disciplined mark ([_] ++ rest) ↔ Unstacked false ([_] ++ rest)
  refine disciplined_iff_of_append ?_ ?_ ?_ mark
  · simp [Op.Plain]
  · simp [Accepts, Op.InsertsRows]
  obtain ⟨_, rfl, h₁⟩ | ⟨_, -, rfl, -⟩ := h₁
  · have hw₁ : w₁.NoneOpen pid := hw.step (Or.inl (Or.inl ⟨_, rfl⟩)) hadd
    have hf₁ : FaultsInRecords rest := fun x hx => hf x (List.mem_cons_of_mem _ hx)
    obtain ⟨created, loop, tail, w₂, rfl, hloop, htail⟩ | ⟨e, -, hloop⟩ := h₁.bind_inv
    · have htail' : ∀ x ∈ tail, x.op.Plain := by
        obtain ⟨_, hcommit, -⟩ := htail.map_inv
        exact fun x hx => (hcommit.uses (uses_commitCreated_ofBulk created.1) x hx).plain
      have hrows := rowLoop_of_traces insertRecord_course hloop hf₁.left
      intro mark
      rw [unstacked_append_plain htail', ← hrows.disciplined_iff hw₁ mark]
      exact ⟨fun h => h.append_left, fun h => h.append (disciplined_of_plain htail')⟩
    · exact (rowLoop_of_traces insertRecord_course hloop hf₁).disciplined_iff hw₁
  · exact fun _ => iff_of_true trivial ⟨fun _ => .nil, .nil⟩

/-- The whole ingestion: the bulk path opens no savepoint, so only the fallback matters. -/
theorem execute_disciplined_iff {out : Except Exn IngestionResponse}
    (h : (IngestReference.execute t u records).Traces (machine pid) w log out w')
    (hw : w.NoneOpen pid) (hf : FaultsInRecords log) : Disciplined [] log ↔ Unstacked false log := by
  obtain ⟨response, rfl, hbulk⟩ | ⟨e, first, c, r, w₁, w₂, rest, rfl, hbulk, hrollback, hrest⟩ :=
    execute_inv h
  · have hplain : ∀ x ∈ log, x.op.Plain := fun x hx => (hbulk.uses uses_bulk_ofBulk x hx).plain
    have hall : Unstacked false ([] ++ log) :=
      (unstacked_append_plain hplain).mpr ⟨fun _ => .nil, .nil⟩
    exact iff_of_true (disciplined_of_plain hplain _) hall
  · have hops := hbulk.uses uses_bulk_ofBulk
    refine disciplined_iff_of_append (fun x hx => (hops x hx).plain)
      (bulk_not_accepts hw hbulk hf.left) (fun mark => ?_) []
    have hf₁ : FaultsInRecords rest := fun x hx => hf.right x (List.mem_cons_of_mem _ hx)
    show Disciplined mark ([_] ++ rest) ↔ Unstacked false ([_] ++ rest)
    refine disciplined_iff_of_append ?_ ?_ (fun mark => ?_) mark
    · simp [Op.Plain]
    · simp [Accepts, Op.InsertsRows]
    obtain ⟨e', -, rfl⟩ | ⟨-, -, rfl, -⟩ | ⟨-, -, hfallback⟩ := hrest
    · exact iff_of_true trivial ⟨fun _ => .nil, .nil⟩
    · exact iff_of_true trivial ⟨fun _ => .nil, .nil⟩
    · have hkeep : ∀ x ∈ first, x.before.NoneOpen pid → x.after.NoneOpen pid :=
        fun x hx hbefore => World.NoneOpen.step hbefore (Or.inl (hops x hx)) (hbulk.step x hx)
      have hw₁ : w₁.NoneOpen pid := hbulk.invariant (I := fun w => w.NoneOpen pid) hkeep hw
      exact fallback_disciplined_iff hfallback (hw₁.step (Or.inr rfl) hrollback) hf₁ mark

end Ingestion

/-! ## The discipline -/

/-- No savepoint is opened in another one, so that the depth is at most one, and going back to a
savepoint undoes only work of the current record. -/
def SavepointDiscipline (log : List (Call pid)) : Prop :=
  Disciplined [] log ∧ ∀ x ∈ log, (x.after.openSavepoints pid).length ≤ 1

/-- The depth needs no condition of its own: where no savepoint is opened in another, it is at most
one. -/
theorem savepointDiscipline_iff {α : Type} {p : Prog α} {out : Except Exn α}
    (h : p.Traces (machine pid) w log out w') (hw : w.NoneOpen pid) :
    SavepointDiscipline log ↔ Disciplined [] log := by
  refine ⟨And.left, fun hlog => ⟨hlog, hlog.depth_le_one h ?_⟩⟩
  rw [hw.opened]
  exact Nat.zero_le 1

/-- From a session without savepoints, and whatever `begin_nested` and the inserts of rows raise
other than an `OperationalError`: the ingestions keep to the discipline exactly when no accepted row
is followed by another record and no savepoint is opened after one that was left without a handle.
For the worker, which commits after each accepted row, the second condition is enough. -/
theorem savepoint_discipline_iff (hw : w.NoneOpen pid) (hf : FaultsInRecords log) :
    (∀ (t : ReferenceTable) (u : BatchId) (records : List ReferenceRecord)
      (out : Except Exn IngestionResponse),
      (ingest t u records).Traces (machine pid) w log out w' →
        (SavepointDiscipline log ↔ Unstacked false log)) ∧
    ∀ (b : BatchId) (records : List EmployeeRecord) (out : Except Exn (List String)),
      (writeRowByRow b records).Traces (machine pid) w log out w' →
        (SavepointDiscipline log ↔ Unstacked true log) := by
  refine ⟨fun t u records out h => ?_, fun b records out h => ?_⟩
  · rw [savepointDiscipline_iff h hw]
    cases t
    · exact execute_disciplined_iff h hw hf
    · exact execute_disciplined_iff h hw hf
  · rw [savepointDiscipline_iff h hw]
    exact (rowLoop_of_traces writeRow_course h hf).disciplined_iff hw []

end

/-- A run in which no call is made to raise. -/
theorem traces_of_calm_replay {α : Type} {p : Prog α} {n : ℕ} {out : Except Exn α}
    (h : p.replay (machine pid) (List.replicate n Choice.calm) w = some (log, out, w')) :
    p.Traces (machine pid) w log out w' ∧ FaultsInRecords log := by
  obtain ⟨htraces, hchoices⟩ := Program.traces_of_replay h
  refine ⟨htraces, fun x hx f hfault => ?_⟩
  rw [List.eq_of_mem_replicate (hchoices x hx)] at hfault
  cases hfault

/-- The choice of a call that raises no `OperationalError`. -/
def timedOut : Choice := { Choice.calm with fault := some ⟨.other "TimeoutError", false, false⟩ }

/-- An ingestion falls back, as the department 1 exists, and then accepts the department 2. A worker
writes three rows: the first is accepted, the second has the same id, and the `begin_nested` of the
last one raises. -/
theorem savepoint_discipline_iff_sample :
    let w := World.initial sampleDb fun _ => none
    (∃ (log : List (Call 0)) (out : Except Exn IngestionResponse) (w' : World),
      (ingest .departments 8 [⟨1, "Sales"⟩, ⟨2, "Legal"⟩]).Traces (machine 0) w log out w' ∧
      log.map Transition.op =
        [.statement (.addBatch 8 .pending),
          .statement (.insertReference .departments [⟨1, "Sales", 8⟩, ⟨2, "Legal", 8⟩]), .rollback,
          .statement (.addBatch 8 .pending),
          .beginNested, .statement (.insertReference .departments [⟨1, "Sales", 8⟩]),
          .rollbackToSavepoint,
          .beginNested, .statement (.insertReference .departments [⟨2, "Legal", 8⟩]),
          .statement (.updateStatus 8 .completed []), .commit] ∧
      (SavepointDiscipline log ↔ Unstacked false log)) ∧
    ∃ (log : List (Call 0)) (w' : World),
      (writeRowByRow 7 [⟨1, "Ann", ⟨0, none⟩, 1, 1⟩, ⟨1, "Bob", ⟨0, none⟩, 1, 1⟩,
        ⟨2, "Cid", ⟨0, none⟩, 1, 1⟩]).Traces (machine 0) w log (.ok ["1:Bob", "2:Cid"]) w' ∧
      (SavepointDiscipline log ↔ Unstacked true log) := by
  intro w
  have hw : w.NoneOpen 0 := ⟨rfl, nofun⟩
  constructor
  · have hrun : ((ingest .departments 8 [⟨1, "Sales"⟩, ⟨2, "Legal"⟩]).replay (machine 0)
        (List.replicate 11 Choice.calm) w).map (fun run => run.1.map Transition.op) = some
        [.statement (.addBatch 8 .pending),
          .statement (.insertReference .departments [⟨1, "Sales", 8⟩, ⟨2, "Legal", 8⟩]), .rollback,
          .statement (.addBatch 8 .pending),
          .beginNested, .statement (.insertReference .departments [⟨1, "Sales", 8⟩]),
          .rollbackToSavepoint,
          .beginNested, .statement (.insertReference .departments [⟨2, "Legal", 8⟩]),
          .statement (.updateStatus 8 .completed []), .commit] := by decide +kernel
    obtain ⟨⟨log, out, w'⟩, hreplay, hops⟩ := Option.map_eq_some_iff.mp hrun
    obtain ⟨htraces, hf⟩ := traces_of_calm_replay hreplay
    exact ⟨log, out, w', htraces, hops, (savepoint_discipline_iff hw hf).1 _ _ _ _ htraces⟩
  · have hrun : ((writeRowByRow 7 [⟨1, "Ann", ⟨0, none⟩, 1, 1⟩, ⟨1, "Bob", ⟨0, none⟩, 1, 1⟩,
        ⟨2, "Cid", ⟨0, none⟩, 1, 1⟩]).replay (machine 0)
          (List.replicate 6 Choice.calm ++ [timedOut, Choice.calm]) w).map
            (fun run => (run.1.all fun x => x.choice.fault.isNone || x.op == .beginNested, run.2.1)) =
        some (true, .ok ["1:Bob", "2:Cid"]) := by decide +kernel
    obtain ⟨⟨log, out, w'⟩, hreplay, hcalls⟩ := Option.map_eq_some_iff.mp hrun
    obtain ⟨hfaults, rfl⟩ := Prod.mk.inj hcalls
    obtain ⟨htraces, hchoices⟩ := Program.traces_of_replay hreplay
    have hf : FaultsInRecords log := by
      intro x hx f hfault
      have hop := List.all_eq_true.mp hfaults x hx
      rw [hfault] at hop
      refine ⟨?_, Or.inl (by simpa using hop)⟩
      have hchoice : x.choice = Choice.calm ∨ x.choice = timedOut ∨ x.choice = Choice.calm := by
        simpa using hchoices x hx
      rcases hchoice with hcalm | hraises | hcalm
      · rw [hcalm] at hfault
        cases hfault
      · rw [hraises] at hfault
        cases hfault
        rfl
      · rw [hcalm] at hfault
        cases hfault
    exact ⟨log, w', htraces, (savepoint_discipline_iff hw hf).2 _ _ _ htraces⟩

/-- One department exists, so that the ingestion falls back, and the two others are accepted: the
savepoint of the third record is opened in that of the second. -/
theorem ingestion_stacks_savepoints :
    ¬ ∀ (t : ReferenceTable) (u : BatchId) (records : List ReferenceRecord) (w w' : World)
      (log : List (Call 0)) (out : Except Exn IngestionResponse), w.NoneOpen 0 → FaultsInRecords log →
      (ingest t u records).Traces (machine 0) w log out w' → SavepointDiscipline log := by
  intro hall
  have hdepths : ((ingestDepartments 7 [⟨1, "Sales"⟩, ⟨2, "Legal"⟩, ⟨3, "Support"⟩]).replay (machine 0)
      (List.replicate 13 Choice.calm) (World.initial outageDb fun _ => none)).map
        (fun run => run.1.map fun x => (x.after.openSavepoints 0).length) =
      some [0, 0, 0, 0, 1, 1, 0, 1, 1, 2, 2, 2, 0] := rfl
  obtain ⟨⟨log, out, w'⟩, hrun, hlog⟩ := Option.map_eq_some_iff.mp hdepths
  have hw : (World.initial outageDb fun _ => none).NoneOpen 0 := ⟨rfl, nofun⟩
  obtain ⟨htraces, hf⟩ := traces_of_calm_replay hrun
  have hdepth := (hall .departments 7 _ _ w' log out hw hf htraces).2
  have hmem : 2 ∈ log.map fun x => (x.after.openSavepoints 0).length := by
    rw [hlog]
    decide
  obtain ⟨x, hx, htwo⟩ := List.mem_map.mp hmem
  have hle := hdepth x hx
  omega

end HiringService
