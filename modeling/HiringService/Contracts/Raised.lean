import HiringService.Contracts.Handled

/-!
# What the worker raises

`stream_and_process` raises the exception of `_process` again once `mark_batch_failed` has returned.
That handler catches what its own calls raise, except for the rollback in its `except` branch: if a
call of its `try` raises and this rollback raises too, the exception of the rollback takes the place
of the one that brought the batch down.
-/

namespace HiringService

open Effect (Program)

/-- A call of the `try` of `mark_batch_failed` raises, and so does the rollback that follows; the
schedule starts at the handler. -/
def FailsTwice (sched : ℕ → List Write × Choice) : Prop :=
  ∃ i < 3, (∀ j < i, (sched j).2.fault = none) ∧ (sched i).2.fault ≠ none ∧
    (sched (i + 1)).2.fault ≠ none

section

variable {pid : Pid} {b : BatchId} {cfg : Settings} {c : Choice} {w w' : World} {op : Op}
  {sched left : ℕ → List Write × Choice} {r : Except Exn Unit}

/-! ## The handler -/

/-- Of `n` calls in a row, each of which raises only what it is made to raise: all return, or the
first that is made to raise is the last that is made. -/
def RaisesFirst (n : ℕ) (sched left : ℕ → List Write × Choice) (r : Except Exn Unit) : Prop :=
  (r = .ok () ∧ ∀ i < n, (sched i).2.fault = none) ∨
    ∃ i < n, (∀ j < i, (sched j).2.fault = none) ∧ (sched i).2.fault ≠ none ∧
      (∃ e, r = .error e) ∧ left = fun k => sched (k + (i + 1))

theorem raisesFirst_fault {n : ℕ} {e : Exn} (h : (sched 0).2.fault ≠ none) :
    RaisesFirst (n + 1) sched (fun k => sched (k + 1)) (.error e) :=
  Or.inr ⟨0, Nat.succ_pos n, fun _ hj => absurd hj (Nat.not_lt_zero _), h, ⟨e, rfl⟩, rfl⟩

theorem RaisesFirst.cons {n : ℕ} (h₀ : (sched 0).2.fault = none)
    (h : RaisesFirst n (fun k => sched (k + 1)) left r) : RaisesFirst (n + 1) sched left r := by
  rcases h with ⟨hr, hall⟩ | ⟨i, hi, hbefore, hfault, hr, hleft⟩
  · refine Or.inl ⟨hr, fun j hj => ?_⟩
    rcases j with _ | j
    · exact h₀
    · exact hall j (by omega)
  · refine Or.inr ⟨i + 1, by omega, fun j hj => ?_, hfault, hr, hleft⟩
    rcases j with _ | j
    · exact h₀
    · exact hbefore j (by omega)

/-- A call raises what it is made to raise, or it does what it does by itself. -/
theorem run_call_cases {f : Reply op → Prog Unit}
    (hrun : ((call op).bind f).run (sharedMachine pid) sched w = some (r, left, w')) :
    ((sched 0).2.fault ≠ none ∧ (∃ e, r = .error e) ∧ left = fun k => sched (k + 1)) ∨
      ((sched 0).2.fault = none ∧ ∃ r₁ w₁,
        exec pid (sched 0).2 (w.foreign (sched 0).1) op = some (r₁, w₁) ∧ ∀ a, r₁ = .ok a →
          (f a).run (sharedMachine pid) (fun k => sched (k + 1)) w₁ = some (r, left, w')) := by
  rw [Program.run_request_bind] at hrun
  rcases hc : (sched 0).2.fault with _ | fault
  · refine Or.inr ⟨rfl, ?_⟩
    rcases hexec : exec pid (sched 0).2 (w.foreign (sched 0).1) op with _ | ⟨r₁, w₁⟩
    · rw [show (sharedMachine pid).step (sched 0) w op = _ from hexec] at hrun
      cases hrun
    · refine ⟨r₁, w₁, rfl, ?_⟩
      rintro a rfl
      rw [show (sharedMachine pid).step (sched 0) w op = _ from hexec] at hrun
      exact hrun
  · rcases hexec : exec pid (sched 0).2 (w.foreign (sched 0).1) op with _ | ⟨r₁, w₁⟩
    · rw [show (sharedMachine pid).step (sched 0) w op = _ from hexec] at hrun
      cases hrun
    obtain ⟨rfl, -⟩ := exec_of_fault hc hexec
    rw [show (sharedMachine pid).step (sched 0) w op = _ from hexec] at hrun
    cases hrun
    exact Or.inl ⟨nofun, ⟨_, rfl⟩, rfl⟩

/-- The `try` of `mark_batch_failed`. -/
def markBody (b : BatchId) : Prog Unit :=
  Uow.rollback.bind fun _ => (Uow.updateStatus b .failed none).bind fun _ => Uow.commit.bind .pure

theorem markBatchFailed_eq (b : BatchId) :
    markBatchFailed b = (markBody b).tryExcept fun _ => Uow.rollback := by
  rw [markBody, Program.bind_pure]
  rfl

/-- The calls in the `try` of `mark_batch_failed` raise only what they are made to raise. -/
theorem run_markBody (hrun : (markBody b).run (sharedMachine pid) sched w = some (r, left, w')) :
    RaisesFirst 3 sched left r := by
  rcases run_call_cases hrun with ⟨h₀, ⟨e, rfl⟩, rfl⟩ | ⟨h₀, r₁, w₁, hexec, hrest⟩
  · exact raisesFirst_fault h₀
  obtain ⟨_, hcalm, hw₁, hsavepoints₁⟩ := exec_rollback_calm pid (w.foreign (sched 0).1) h₀
  cases hcalm.symm.trans hexec
  refine RaisesFirst.cons h₀ ?_
  rcases run_call_cases (hrest () rfl) with ⟨h₁, ⟨e, rfl⟩, rfl⟩ | ⟨h₁, r₂, w₂, hexec, hrest⟩
  · exact raisesFirst_fault h₁
  obtain ⟨rfl, hw₂, hsavepoints₂⟩ := exec_updateStatus_calm (w₁.foreign (sched 1).1) h₁ hw₁ hexec
  refine RaisesFirst.cons h₁ ?_
  rcases run_call_cases (hrest () rfl) with ⟨h₂, ⟨e, rfl⟩, rfl⟩ | ⟨h₂, r₃, w₃, hexec, hrest⟩
  · exact raisesFirst_fault h₂
  have hdepth : ((w₂.foreign (sched 2).1).server.sessions pid).savepoints.length ≤
      (sched 2).2.nested := by
    have hnone : (w₂.server.sessions pid).savepoints = [] := hsavepoints₂.trans hsavepoints₁
    show (w₂.server.sessions pid).savepoints.length ≤ _
    rw [hnone]
    exact Nat.zero_le _
  cases (exec_commit_calm (w₂.foreign (sched 2).1) h₂ hw₂ hdepth).symm.trans hexec
  refine RaisesFirst.cons h₂ ?_
  cases hrest () rfl
  exact Or.inl ⟨rfl, fun i hi => absurd hi (Nat.not_lt_zero i)⟩

/-- `mark_batch_failed` returns exactly when it does not fail twice. -/
theorem run_markBatchFailed
    (hrun : (markBatchFailed b).run (sharedMachine pid) sched w = some (r, left, w')) :
    r = .ok () ↔ ¬ FailsTwice sched := by
  rw [markBatchFailed_eq, Program.run_tryExcept] at hrun
  rcases hbody : (markBody b).run (sharedMachine pid) sched w with _ | ⟨r₁, left₁, w₁⟩
  · rw [hbody] at hrun
    cases hrun
  rw [hbody] at hrun
  rcases run_markBody hbody with ⟨rfl, hall⟩ | ⟨i, hi, hbefore, hfault, ⟨e, rfl⟩, rfl⟩
  · cases hrun
    refine iff_of_true rfl ?_
    rintro ⟨i, hi, -, hfault, -⟩
    exact hfault (hall i hi)
  · -- the rollback in the `except` branch is the next call
    rw [← Program.bind_pure Uow.rollback] at hrun
    have hfails : FailsTwice sched ↔ (sched (i + 1)).2.fault ≠ none := by
      constructor
      · rintro ⟨i', hi', hbefore', hfault', hagain⟩
        obtain rfl : i = i' := by
          rcases Nat.lt_trichotomy i i' with hlt | heq | hlt
          · exact absurd (hbefore' i hlt) hfault
          · exact heq
          · exact absurd (hbefore i' hlt) hfault'
        exact hagain
      · exact fun hagain => ⟨i, hi, hbefore, hfault, hagain⟩
    have hnext : (sched (0 + (i + 1))).2.fault = (sched (i + 1)).2.fault := by rw [Nat.zero_add]
    rcases run_call_cases hrun with ⟨h₀, ⟨e', rfl⟩, -⟩ | ⟨h₀, r₂, w₂, hexec, hrest⟩
    · rw [hfails, ← hnext]
      exact iff_of_false nofun fun h => h h₀
    · obtain ⟨_, hcalm, -⟩ := exec_rollback_calm pid (w₁.foreign _) h₀
      cases hcalm.symm.trans hexec
      cases hrest () rfl
      rw [hfails, ← hnext]
      exact iff_of_true rfl fun h => h h₀

/-- When a call of `_process` raises `e`, the handler does not raise and `stream_and_process` raises
`e`, exactly when the handler does not fail twice: not one of its calls and the rollback after it. It
comes to an end if no other transaction is open when `_process` starts. -/
theorem streamAndProcess_raises_iff {e : Exn} {sched₁ : ℕ → List Write × Choice} {w₁ : World}
    (hprocess : (process b cfg).run (sharedMachine pid) sched w = some (.error e, sched₁, w₁)) :
    (∀ r left w', (markBatchFailed b).run (sharedMachine pid) sched₁ w₁ = some (r, left, w') →
      ((r = .ok () ∧
        (streamAndProcess b cfg).run (sharedMachine pid) sched w = some (.error e, left, w')) ↔
        ¬ FailsTwice sched₁)) ∧
    (w.Unshared pid → ∃ r left w',
      (markBatchFailed b).run (sharedMachine pid) sched₁ w₁ = some (r, left, w')) := by
  refine ⟨fun r left w' hmark => ?_, fun hw => ?_⟩
  · rw [← run_markBatchFailed hmark]
    refine ⟨And.left, fun hr => ⟨hr, ?_⟩⟩
    subst hr
    show ((process b cfg).tryExcept fun exc =>
      (markBatchFailed b).bind fun _ => .throw exc).run _ _ _ = _
    rw [Program.run_tryExcept, hprocess]
    show ((markBatchFailed b).bind fun _ => .throw e).run _ _ _ = _
    rw [Program.run_bind, hmark]
    rfl
  · -- `_process` leaves no transaction of others open
    obtain ⟨_, _, _, hrun, hw₁⟩ := run_shared_total (process b cfg) sched hw
    cases hprocess.symm.trans hrun
    obtain ⟨r, m, w', hmark, -⟩ := run_shared_total (markBatchFailed b) _ hw₁
    exact ⟨r, _, w', hmark⟩

end

/-- The calls of the samples: the file is missing, and the database does not answer the calls
`down`. -/
def missingFile (down : List ℕ) (n : ℕ) : List Write × Choice :=
  ([], if n ∈ down then
    { Choice.calm with fault := some ⟨.operational "server closed the connection", false, true⟩ }
    else .calm)

/-- The handler rolls back, its `update_status` raises, and the rollback after it returns. -/
theorem streamAndProcess_raises_iff_sample :
    let w := World.initial sampleDb fun _ => none
    (∀ r left w', (markBatchFailed 7).run (sharedMachine 0) (fun n => missingFile [2] (n + 1)) w =
        some (r, left, w') →
      ((r = .ok () ∧
        (streamAndProcess 7 sampleSettings).run (sharedMachine 0) (missingFile [2]) w =
          some (.error (.other "object not found"), left, w')) ↔
        ¬ FailsTwice fun n => missingFile [2] (n + 1))) ∧
    (w.Unshared 0 → ∃ r left w',
      (markBatchFailed 7).run (sharedMachine 0) (fun n => missingFile [2] (n + 1)) w =
        some (r, left, w')) :=
  streamAndProcess_raises_iff rfl

/-- The file is missing. The `update_status` of the handler raises in a transaction that it has
begun, and so does the ROLLBACK of it: the worker raises the exception of the rollback in place of
the one that `_process` has raised. -/
theorem streamAndProcess_masks :
    let w := World.initial sampleDb fun _ => none
    ((process 7 sampleSettings).run (sharedMachine 0) (missingFile [2, 3]) w).map Prod.fst =
        some (.error (.other "object not found")) ∧
      ((streamAndProcess 7 sampleSettings).run (sharedMachine 0) (missingFile [2, 3]) w).map
        Prod.fst = some (.error (.operational "server closed the connection")) ∧
      ¬ ∀ sched e, ((process 7 sampleSettings).run (sharedMachine 0) sched w).map Prod.fst =
          some (.error e) →
        ((streamAndProcess 7 sampleSettings).run (sharedMachine 0) sched w).map Prod.fst =
          some (.error e) := by
  refine ⟨rfl, rfl, fun hall => ?_⟩
  have hmasked := hall (missingFile [2, 3]) (.other "object not found") rfl
  cases hmasked

end HiringService
