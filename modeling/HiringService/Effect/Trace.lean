import HiringService.Effect.Contract

/-!
# The calls of a run

A `Transition` is one call of a program on a machine: what was called, what the environment chose,
the reply, and the state before and after it. `p.Traces M s log out s'` says that `p`, started in
`s`, can make the calls `log` one after the other and end in `s'` with the outcome `out`. The
choices of the environment are arbitrary, and they can be read off the log.

A log is taken apart along the program: `Traces.bind_inv` and `Traces.tryExcept_inv` split it where
the program was put together.
-/

namespace Effect

/-- A call on `M`. -/
structure Transition {ι : Type} {ρ : ι → Type} {ε σ : Type} (M : Machine ι ρ ε σ) where
  op : ι
  choice : M.Choice
  before : σ
  reply : Except ε (ρ op)
  after : σ

/-- The call returns. -/
def Transition.Returns {ι : Type} {ρ : ι → Type} {ε σ : Type} {M : Machine ι ρ ε σ}
    (x : Transition M) : Prop :=
  ∃ a, x.reply = .ok a

namespace Program

variable {ι : Type} {ρ : ι → Type} {ε σ α β : Type} {M : Machine ι ρ ε σ}

/-- The calls that a run of a program makes. -/
inductive Traces (M : Machine ι ρ ε σ) :
    Program ι ρ ε α → σ → List (Transition M) → Except ε α → σ → Prop
  | pure {a : α} {s : σ} : Traces M (.pure a) s [] (.ok a) s
  | throw {e : ε} {s : σ} : Traces M (.throw e) s [] (.error e) s
  | call {i : ι} {k : Except ε (ρ i) → Program ι ρ ε α} {c : M.Choice} {r : Except ε (ρ i)}
      {s s₁ s' : σ} {log : List (Transition M)} {out : Except ε α}
      (hstep : M.step c s i = some (r, s₁)) (hrest : Traces M (k r) s₁ log out s') :
      Traces M (.call i k) s (⟨i, c, s, r, s₁⟩ :: log) out s'

section Inversion

variable {s s' : σ} {log : List (Transition M)} {out : Except ε α}

theorem Traces.call_inv {i : ι} {k : Except ε (ρ i) → Program ι ρ ε α}
    (h : (Program.call i k).Traces M s log out s') :
    ∃ c r s₁ rest, M.step c s i = some (r, s₁) ∧ log = ⟨i, c, s, r, s₁⟩ :: rest ∧
      (k r).Traces M s₁ rest out s' := by
  cases h with
  | call hstep hrest => exact ⟨_, _, _, _, hstep, rfl, hrest⟩

/-- The log of a sequence: that of its first part, and that of the rest if the first part
returns. -/
theorem Traces.bind_inv {p : Program ι ρ ε α} {f : α → Program ι ρ ε β} {out : Except ε β}
    (h : (p.bind f).Traces M s log out s') :
    (∃ a log₁ log₂ s₁, log = log₁ ++ log₂ ∧ p.Traces M s log₁ (.ok a) s₁ ∧
      (f a).Traces M s₁ log₂ out s') ∨
      ∃ e, out = .error e ∧ p.Traces M s log (.error e) s' := by
  induction p generalizing s log with
  | pure a => exact Or.inl ⟨a, [], log, s, rfl, .pure, h⟩
  | throw e =>
      cases h
      exact Or.inr ⟨e, rfl, .throw⟩
  | call i k ih =>
      obtain ⟨c, r, t, rest, hstep, rfl, hrest⟩ := h.call_inv
      rcases ih r hrest with ⟨a, log₁, log₂, s₁, rfl, h₁, h₂⟩ | ⟨e, he, h₁⟩
      · exact Or.inl ⟨a, _ :: log₁, log₂, s₁, rfl, .call hstep h₁, h₂⟩
      · exact Or.inr ⟨e, he, .call hstep h₁⟩

/-- A computation without calls adds nothing to the log. -/
theorem Traces.lift_bind_inv {x : Except ε α} {f : α → Program ι ρ ε β} {out : Except ε β}
    (h : ((lift x).bind f).Traces M s log out s') :
    (∃ a, x = .ok a ∧ (f a).Traces M s log out s') ∨ ∃ e, x = .error e ∧ out = .error e := by
  cases x with
  | ok a => exact Or.inl ⟨a, rfl, h⟩
  | error e =>
      cases h
      exact Or.inr ⟨e, rfl, rfl⟩

/-- A result that is only mapped: the log stays. -/
theorem Traces.map_inv {p : Program ι ρ ε α} {g : α → β} {out : Except ε β}
    (h : (p.bind fun a => .pure (g a)).Traces M s log out s') :
    ∃ out', p.Traces M s log out' s' ∧ out = out'.map g := by
  rcases h.bind_inv with ⟨a, log₁, log₂, s₁, rfl, h₁, h₂⟩ | ⟨e, rfl, h₁⟩
  · cases h₂
    exact ⟨.ok a, by simpa using h₁, rfl⟩
  · exact ⟨.error e, h₁, rfl⟩

/-- The log of a `try`: that of its body, and that of the handler if the body raises. -/
theorem Traces.tryExcept_inv {p : Program ι ρ ε α} {handler : ε → Program ι ρ ε α}
    (h : (p.tryExcept handler).Traces M s log out s') :
    (∃ a, out = .ok a ∧ p.Traces M s log (.ok a) s') ∨
      ∃ e log₁ log₂ s₁, log = log₁ ++ log₂ ∧ p.Traces M s log₁ (.error e) s₁ ∧
        (handler e).Traces M s₁ log₂ out s' := by
  induction p generalizing s log with
  | pure a =>
      cases h
      exact Or.inl ⟨a, rfl, .pure⟩
  | throw e => exact Or.inr ⟨e, [], log, s, rfl, .throw, h⟩
  | call i k ih =>
      obtain ⟨c, r, t, rest, hstep, rfl, hrest⟩ := h.call_inv
      rcases ih r hrest with ⟨a, ha, h₁⟩ | ⟨e, log₁, log₂, s₁, rfl, h₁, h₂⟩
      · exact Or.inl ⟨a, ha, .call hstep h₁⟩
      · exact Or.inr ⟨e, _ :: log₁, log₂, s₁, rfl, .call hstep h₁, h₂⟩

/-- The log of a call and of what follows it. -/
theorem Traces.request_bind_inv {i : ι} {f : ρ i → Program ι ρ ε α}
    (h : ((request i).bind f).Traces M s log out s') :
    ∃ c r s₁ rest, M.step c s i = some (r, s₁) ∧ log = ⟨i, c, s, r, s₁⟩ :: rest ∧
      ((∃ a, r = .ok a ∧ (f a).Traces M s₁ rest out s') ∨
        ∃ e, r = .error e ∧ rest = [] ∧ out = .error e ∧ s' = s₁) := by
  obtain ⟨c, r, s₁, rest, hstep, rfl, hrest⟩ := h.call_inv
  refine ⟨c, r, s₁, rest, hstep, rfl, ?_⟩
  rcases r with e | a
  · cases hrest
    exact Or.inr ⟨e, rfl, rfl, rfl, rfl⟩
  · exact Or.inl ⟨a, rfl, hrest⟩

/-- The log of a single call. -/
theorem Traces.request_inv {i : ι} {out : Except ε (ρ i)}
    (h : (request i : Program ι ρ ε (ρ i)).Traces M s log out s') :
    ∃ c, M.step c s i = some (out, s') ∧ log = [⟨i, c, s, out, s'⟩] := by
  obtain ⟨c, r, s₁, rest, hstep, rfl, hrest⟩ := h.call_inv
  rcases r with e | a
  · cases hrest
    exact ⟨c, hstep, rfl⟩
  · cases hrest
    exact ⟨c, hstep, rfl⟩

end Inversion

/-- Two places in one log: the same, or one before the other. -/
theorem append_cons_cases {γ : Type} {x y : γ} {pre post pre' post' : List γ}
    (h : pre ++ x :: post = pre' ++ y :: post') :
    (∃ mid, pre' = pre ++ x :: mid ∧ post = mid ++ y :: post') ∨
      (pre = pre' ∧ x = y ∧ post = post') ∨
      ∃ mid, pre = pre' ++ y :: mid ∧ post' = mid ++ x :: post := by
  rcases List.append_eq_append_iff.mp h with ⟨mid, hpre, hpost⟩ | ⟨mid, hpre, hpost⟩
  · rcases mid with _ | ⟨z, mid⟩
    · obtain ⟨rfl, rfl⟩ := List.cons_eq_cons.mp hpost
      exact Or.inr (Or.inl ⟨by simpa using hpre.symm, rfl, rfl⟩)
    · obtain ⟨rfl, rfl⟩ := List.cons_eq_cons.mp hpost
      exact Or.inl ⟨mid, hpre, rfl⟩
  · rcases mid with _ | ⟨z, mid⟩
    · obtain ⟨rfl, rfl⟩ := List.cons_eq_cons.mp hpost
      exact Or.inr (Or.inl ⟨by simpa using hpre, rfl, rfl⟩)
    · obtain ⟨rfl, rfl⟩ := List.cons_eq_cons.mp hpost
      exact Or.inr (Or.inr ⟨mid, hpre, rfl⟩)

/-- A place in one log after another. -/
theorem append_eq_append_cons {γ : Type} {x : γ} {xs ys pre post : List γ}
    (h : xs ++ ys = pre ++ x :: post) :
    (∃ rest, xs = pre ++ x :: rest ∧ post = rest ++ ys) ∨
      ∃ mid, pre = xs ++ mid ∧ ys = mid ++ x :: post := by
  rcases List.append_eq_append_iff.mp h with ⟨mid, hpre, hys⟩ | ⟨mid, hxs, hpost⟩
  · exact Or.inr ⟨mid, hpre, hys⟩
  · rcases mid with _ | ⟨y, mid⟩
    · exact Or.inr ⟨[], by simpa using hxs.symm, by simpa using hpost.symm⟩
    · obtain ⟨rfl, rfl⟩ := List.cons_eq_cons.mp hpost
      exact Or.inl ⟨mid, hxs, rfl⟩

/-! ## A run with given choices -/

/-- The calls, the outcome and the final state when the environment makes the choices of the list;
`none` if they do not reach to the end. -/
def replay (M : Machine ι ρ ε σ) :
    Program ι ρ ε α → List M.Choice → σ → Option (List (Transition M) × Except ε α × σ)
  | .pure a, _, s => some ([], .ok a, s)
  | .throw e, _, s => some ([], .error e, s)
  | .call _ _, [], _ => none
  | .call i k, c :: cs, s =>
      match M.step c s i with
      | none => none
      | some (r, s₁) => ((k r).replay M cs s₁).map fun end' => (⟨i, c, s, r, s₁⟩ :: end'.1, end'.2)

/-- What has been replayed is a run, with choices of the list. -/
theorem traces_of_replay {p : Program ι ρ ε α} {cs : List M.Choice} {s s' : σ}
    {log : List (Transition M)} {out : Except ε α} (h : p.replay M cs s = some (log, out, s')) :
    p.Traces M s log out s' ∧ ∀ x ∈ log, x.choice ∈ cs := by
  induction p generalizing cs s log with
  | pure a =>
      cases h
      exact ⟨.pure, by simp⟩
  | throw e =>
      cases h
      exact ⟨.throw, by simp⟩
  | call i k ih =>
      rcases cs with _ | ⟨c, cs⟩
      · cases h
      · rw [replay] at h
        rcases hstep : M.step c s i with _ | ⟨r, s₁⟩
        · rw [hstep] at h
          cases h
        · rw [hstep] at h
          obtain ⟨⟨rest, end'⟩, hrest, heq⟩ := Option.map_eq_some_iff.mp h
          cases heq
          obtain ⟨htraces, hchoices⟩ := ih r hrest
          refine ⟨.call hstep htraces, fun x hx => ?_⟩
          rcases List.mem_cons.mp hx with rfl | hx
          · exact List.mem_cons_self
          · exact List.mem_cons_of_mem c (hchoices x hx)

/-! ## Logs of runs -/

section Runs

variable {p : Program ι ρ ε α} {s s' : σ}

/-- The calls of a run under a schedule: the environment has made the choices of the schedule. -/
theorem traces_of_run {sched left : ℕ → M.Choice} {out : Except ε α}
    (h : p.run M sched s = some (out, left, s')) :
    ∃ log, p.Traces M s log out s' ∧
      log.map Transition.choice = (List.range log.length).map sched := by
  induction p generalizing s sched with
  | pure a =>
      cases h
      exact ⟨[], .pure, rfl⟩
  | throw e =>
      cases h
      exact ⟨[], .throw, rfl⟩
  | call i k ih =>
      rw [run] at h
      rcases hstep : M.step (sched 0) s i with _ | ⟨r, s₁⟩
      · rw [hstep] at h
        cases h
      · rw [hstep] at h
        obtain ⟨log, hlog, hchoices⟩ := ih r h
        refine ⟨_, .call hstep hlog, ?_⟩
        rw [List.map_cons, hchoices, List.length_cons, List.range_succ_eq_map, List.map_cons,
          List.map_map]
        rfl

/-- What a program ensures holds at the end of its calls, when the other parties keep to the rely
condition. -/
theorem Ensures.of_traces {τ : Type} {act : τ → σ → σ} {env : Env M} {Q : Except ε α → σ → Prop}
    (hp : p.Ensures env Q s) (hact : ∀ c t, env.rely t (act c t)) (hmay : ∀ c i, env.may c i)
    {log : List (Transition (M.perturbed act))} {out : Except ε α}
    (h : p.Traces (M.perturbed act) s log out s') : Q out s' := by
  induction h with
  | pure => exact hp.returned
  | throw => exact hp.raised
  | call hstep _ ih => exact ih ((hp.interfere (hact _ _)).step (hmay _ _) hstep).2

/-- A call starts where the call before it has ended. -/
theorem Traces.after_eq_before {before after : List (Transition M)} {x y : Transition M}
    {out : Except ε α} (h : p.Traces M s (before ++ x :: y :: after) out s') :
    x.after = y.before := by
  induction before generalizing p s with
  | nil =>
      cases h with
      | @call _ k _ r _ _ _ _ _ _ hrest =>
          generalize k r = rest at hrest
          cases hrest
          rfl
  | cons z before ih =>
      cases h with
      | call _ hrest => exact ih hrest

end Runs

/-! ## What holds of every call -/

section Every

variable {p : Program ι ρ ε α} {s s' : σ} {log : List (Transition M)} {out : Except ε α}

/-- A call is a step of the machine. -/
theorem Traces.step (h : p.Traces M s log out s') :
    ∀ x ∈ log, M.step x.choice x.before x.op = some (x.reply, x.after) := by
  induction h with
  | pure => simp
  | throw => simp
  | call hstep hrest ih =>
      intro x hx
      rcases List.mem_cons.mp hx with rfl | hx
      · exact hstep
      · exact ih x hx

/-- A program only makes calls of the operations that it uses. -/
theorem Traces.uses (h : p.Traces M s log out s') {allowed : ι → Prop} (hp : p.Uses allowed) :
    ∀ x ∈ log, allowed x.op := by
  induction h with
  | pure => simp
  | throw => simp
  | call hstep hrest ih =>
      intro x hx
      rcases List.mem_cons.mp hx with rfl | hx
      · exact hp.1
      · exact ih (hp.2 _) x hx

/-- What every call of the log keeps is kept by the run. -/
theorem Traces.invariant (h : p.Traces M s log out s') {I : σ → Prop}
    (hstep : ∀ x ∈ log, I x.before → I x.after) (hs : I s) : I s' := by
  induction h with
  | pure => exact hs
  | throw => exact hs
  | call _ _ ih =>
      refine ih (fun x hx => hstep x (List.mem_cons_of_mem _ hx)) ?_
      exact hstep _ List.mem_cons_self hs

end Every

/-! ## Exceptions that end a program -/

/-- An exception `e` with `fatal e` that a call raises ends `p` at once, with an exception `e'` such
that `R e e'`. -/
def Stops (fatal : ε → Prop) (R : ε → ε → Prop) : Program ι ρ ε α → Prop
  | .pure _ => True
  | .throw _ => True
  | .call _ k => (∀ e, fatal e → ∃ e', R e e' ∧ k (.error e) = .throw e') ∧
      ∀ r, (k r).Stops fatal R

section Stops

variable {fatal : ε → Prop} {R : ε → ε → Prop}

theorem stops_request {i : ι} (hR : ∀ e, R e e) :
    (request i : Program ι ρ ε (ρ i)).Stops fatal R := by
  refine ⟨fun e _ => ⟨e, hR e, rfl⟩, fun r => ?_⟩
  cases r <;> trivial

theorem Stops.bind {p : Program ι ρ ε α} {f : α → Program ι ρ ε β} (hp : p.Stops fatal R)
    (hf : ∀ a, (f a).Stops fatal R) : (p.bind f).Stops fatal R := by
  induction p with
  | pure a => exact hf a
  | throw e => trivial
  | call i k ih =>
      refine ⟨fun e he => ?_, fun r => ih r (hp.2 r)⟩
      obtain ⟨e', hR, hk⟩ := hp.1 e he
      exact ⟨e', hR, congrArg (Program.bind · f) hk⟩

/-- A handler that raises what it gets ends the program too. -/
theorem Stops.tryExcept {p : Program ι ρ ε α} {handler : ε → Program ι ρ ε α}
    (hp : p.Stops fatal Eq) (hraise : ∀ e, fatal e → ∃ e', R e e' ∧ handler e = .throw e')
    (hhandler : ∀ e, (handler e).Stops fatal R) : (p.tryExcept handler).Stops fatal R := by
  induction p with
  | pure a => trivial
  | throw e => exact hhandler e
  | call i k ih =>
      refine ⟨fun e he => ?_, fun r => ih r (hp.2 r)⟩
      obtain ⟨_, rfl, hk⟩ := hp.1 e he
      obtain ⟨e', hR, hthrow⟩ := hraise e he
      exact ⟨e', hR, (congrArg (Program.tryExcept · handler) hk).trans hthrow⟩

theorem Stops.foldlM {f : β → α → Program ι ρ ε β} (hf : ∀ b a, (f b a).Stops fatal R)
    (xs : List α) (b : β) : (xs.foldlM f b).Stops fatal R := by
  induction xs generalizing b with
  | nil => trivial
  | cons x xs ih =>
      rw [List.foldlM_cons]
      exact (hf b x).bind fun b' => ih b'

/-- A call that raises such an exception is the last one. -/
theorem Traces.stops {p : Program ι ρ ε α} {s s' : σ} {pre post : List (Transition M)}
    {x : Transition M} {out : Except ε α} (h : p.Traces M s (pre ++ x :: post) out s')
    (hp : p.Stops fatal R) {e : ε} (hx : x.reply = .error e) (he : fatal e) :
    post = [] ∧ (∃ e', R e e' ∧ out = .error e') ∧ s' = x.after := by
  induction pre generalizing p s with
  | nil =>
      cases h with
      | call _ hrest =>
          obtain ⟨e', hR, hk⟩ := hp.1 e he
          simp only at hx
          rw [hx, hk] at hrest
          cases hrest
          exact ⟨rfl, ⟨e', hR, rfl⟩, rfl⟩
  | cons y pre ih =>
      cases h with
      | call _ hrest => exact ih hrest (hp.2 _)

end Stops

end Program

end Effect
