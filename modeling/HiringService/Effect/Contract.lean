import HiringService.Effect.Program
import Mathlib.Data.Nat.Notation

/-!
# Running programs and what they ensure

A `Machine` says what a call does to a state. A step takes a `Choice` of the environment, which is
how faults and other nondeterminism enter, and it may be blocked (`none`).

* `Program.run` follows one schedule of choices, with nobody else changing the state.
* `Program.Ensures` quantifies over what an `Env` allows: `rely` is what other parties may do between
  two calls, `may` which choices are made at a call, `mayBlock` whether a call may have to wait, and
  `guar` is what every call of the program has to respect in return.

`Ensures.run` and `Ensures.of_run` connect the two: what a program ensures holds of its run under
every schedule.
-/

namespace Effect

/-- What a call does to the state, for each choice of the environment. -/
structure Machine (ι : Type) (ρ : ι → Type) (ε σ : Type) where
  Choice : Type
  step : Choice → σ → (i : ι) → Option (Except ε (ρ i) × σ)

/-- The machine in which a choice also lets other parties act before the call. -/
abbrev Machine.perturbed {ι : Type} {ρ : ι → Type} {ε σ τ : Type} (M : Machine ι ρ ε σ)
    (act : τ → σ → σ) : Machine ι ρ ε σ where
  Choice := τ × M.Choice
  step c s i := M.step c.2 (act c.1 s) i

/-- The environment of a program that runs on `M`. -/
structure Env {ι : Type} {ρ : ι → Type} {ε σ : Type} (M : Machine ι ρ ε σ) where
  rely : σ → σ → Prop
  guar : σ → σ → Prop
  may : M.Choice → ι → Prop
  mayBlock : Prop
  refl : ∀ s, rely s s
  trans : ∀ {s t u}, rely s t → rely t u → rely s u

/-- Nobody interferes, nothing is asked of the single steps, and a blocked call is a failure. -/
def Env.alone {ι : Type} {ρ : ι → Type} {ε σ : Type} (M : Machine ι ρ ε σ)
    (may : M.Choice → ι → Prop) : Env M where
  rely := Eq
  guar _ _ := True
  may := may
  mayBlock := False
  refl _ := rfl
  trans := Eq.trans

/-- An assertion that the interference of `env` keeps. -/
def Env.Stable {ι : Type} {ρ : ι → Type} {ε σ : Type} {M : Machine ι ρ ε σ} (env : Env M)
    (P : σ → Prop) : Prop :=
  ∀ {s t}, env.rely s t → P s → P t

namespace Program

variable {ι : Type} {ρ : ι → Type} {ε σ α β : Type}

/-! ## One run under a schedule -/

/-- Run `p` with the choices `sched 0, sched 1, …`, returning the outcome, the choices that are left
and the final state. -/
def run (M : Machine ι ρ ε σ) :
    Program ι ρ ε α → (ℕ → M.Choice) → σ → Option (Except ε α × (ℕ → M.Choice) × σ)
  | .pure a, sched, s => some (.ok a, sched, s)
  | .throw e, sched, s => some (.error e, sched, s)
  | .call i k, sched, s =>
      match M.step (sched 0) s i with
      | none => none
      | some (r, s') => (k r).run M (fun n => sched (n + 1)) s'

section Run

variable {M : Machine ι ρ ε σ} {sched : ℕ → M.Choice} {s : σ}

@[simp] theorem run_pure (a : α) :
    (Program.pure a : Program ι ρ ε α).run M sched s = some (.ok a, sched, s) := rfl

@[simp] theorem run_throw (e : ε) :
    (Program.throw e : Program ι ρ ε α).run M sched s = some (.error e, sched, s) := rfl

theorem run_bind (p : Program ι ρ ε α) (f : α → Program ι ρ ε β) :
    (p.bind f).run M sched s =
      match p.run M sched s with
      | none => none
      | some (.ok a, sched', s') => (f a).run M sched' s'
      | some (.error e, sched', s') => some (.error e, sched', s') := by
  induction p generalizing sched s with
  | pure a => rfl
  | throw e => rfl
  | call i k ih =>
      simp only [bind, run]
      cases M.step (sched 0) s i with
      | none => rfl
      | some rs => exact ih rs.1

theorem run_tryExcept (p : Program ι ρ ε α) (h : ε → Program ι ρ ε α) :
    (p.tryExcept h).run M sched s =
      match p.run M sched s with
      | none => none
      | some (.ok a, sched', s') => some (.ok a, sched', s')
      | some (.error e, sched', s') => (h e).run M sched' s' := by
  induction p generalizing sched s with
  | pure a => rfl
  | throw e => rfl
  | call i k ih =>
      simp only [tryExcept, run]
      cases M.step (sched 0) s i with
      | none => rfl
      | some rs => exact ih rs.1

/-- A call and what follows it. -/
theorem run_request_bind {i : ι} (f : ρ i → Program ι ρ ε α) :
    ((request i).bind f).run M sched s =
      match M.step (sched 0) s i with
      | none => none
      | some (.ok a, s') => (f a).run M (fun n => sched (n + 1)) s'
      | some (.error e, s') => some (.error e, fun n => sched (n + 1), s') := by
  show (Program.call i _).run M sched s = _
  rw [run]
  rcases M.step (sched 0) s i with _ | ⟨_ | _, s'⟩
  · rfl
  · rfl
  · rfl

/-- A property that every call of an allowed operation keeps is kept by a run. -/
theorem run_invariant {allowed : ι → Prop} {I : σ → Prop}
    (hstep : ∀ {c s i r s'}, allowed i → I s → M.step c s i = some (r, s') → I s')
    {p : Program ι ρ ε α} (hp : p.Uses allowed) {r : Except ε α} {sched' : ℕ → M.Choice} {s' : σ}
    (hs : I s) (hrun : p.run M sched s = some (r, sched', s')) : I s' := by
  induction p generalizing sched s with
  | pure a => cases hrun; exact hs
  | throw e => cases hrun; exact hs
  | call i k ih =>
      simp only [run] at hrun
      cases hi : M.step (sched 0) s i with
      | none => rw [hi] at hrun; cases hrun
      | some rs =>
          obtain ⟨r₁, s₁⟩ := rs
          rw [hi] at hrun
          exact ih r₁ (hp.2 r₁) (hstep hp.1 hs hi) hrun

/-- A program comes to an end where an invariant rules out that a call blocks. -/
theorem run_total {N : σ → Prop}
    (hstep : ∀ {c s} i, N s → ∃ r s', M.step c s i = some (r, s') ∧ N s') (p : Program ι ρ ε α)
    (hs : N s) : ∃ r m s', p.run M sched s = some (r, fun n => sched (n + m), s') ∧ N s' := by
  induction p generalizing s sched with
  | pure a => exact ⟨_, 0, _, rfl, hs⟩
  | throw e => exact ⟨_, 0, _, rfl, hs⟩
  | call i k ih =>
      obtain ⟨r₁, s₁, hi, hs₁⟩ := hstep (c := sched 0) i hs
      obtain ⟨r, m, s', hrun, hN⟩ := @ih r₁ (fun n => sched (n + 1)) s₁ hs₁
      refine ⟨r, m + 1, s', ?_, hN⟩
      rw [Program.run, hi]
      exact hrun

end Run

/-! ## Contracts -/

/-- From state `s`, whatever the environment `env` does and chooses, every call of `p` respects the
guarantee and `p` ends with an outcome and a state that satisfy `Q`. -/
def Ensures {M : Machine ι ρ ε σ} (env : Env M) (Q : Except ε α → σ → Prop) :
    Program ι ρ ε α → σ → Prop
  | .pure a, s => ∀ t, env.rely s t → Q (.ok a) t
  | .throw e, s => ∀ t, env.rely s t → Q (.error e) t
  | .call i k, s => ∀ t, env.rely s t → ∀ c, env.may c i →
      match M.step c t i with
      | none => env.mayBlock
      | some (r, t') => env.guar t t' ∧ (k r).Ensures env Q t'

section Ensures

variable {M : Machine ι ρ ε σ} {env : Env M} {Q Q' : Except ε α → σ → Prop} {s t : σ}

/-- What a program ensures survives the interference of its environment. -/
theorem Ensures.interfere {p : Program ι ρ ε α} (hp : p.Ensures env Q s) (hst : env.rely s t) :
    p.Ensures env Q t := by
  cases p with
  | pure a => exact fun u hu => hp u (env.trans hst hu)
  | throw e => exact fun u hu => hp u (env.trans hst hu)
  | call i k => exact fun u hu => hp u (env.trans hst hu)

/-- A single step of a program that is about to call `i`. -/
theorem Ensures.step {i : ι} {k : Except ε (ρ i) → Program ι ρ ε α}
    (hp : (Program.call i k).Ensures env Q s) {c : M.Choice} {r : Except ε (ρ i)} {s' : σ}
    (hc : env.may c i) (hstep : M.step c s i = some (r, s')) :
    env.guar s s' ∧ (k r).Ensures env Q s' := by
  have h := hp s (env.refl s) c hc
  rw [hstep] at h
  exact h

theorem Ensures.returned {a : α} (hp : (Program.pure a : Program ι ρ ε α).Ensures env Q s) :
    Q (.ok a) s :=
  hp s (env.refl s)

theorem Ensures.raised {e : ε} (hp : (Program.throw e : Program ι ρ ε α).Ensures env Q s) :
    Q (.error e) s :=
  hp s (env.refl s)

theorem ensures_pure {a : α} (hQ : env.Stable (Q (.ok a))) (hs : Q (.ok a) s) :
    (Program.pure a : Program ι ρ ε α).Ensures env Q s :=
  fun _ hst => hQ hst hs

theorem ensures_throw {e : ε} (hQ : env.Stable (Q (.error e))) (hs : Q (.error e) s) :
    (Program.throw e : Program ι ρ ε α).Ensures env Q s :=
  fun _ hst => hQ hst hs

/-- The rule for one call: a stable assertion before it, and a contract for what follows it. -/
theorem ensures_call {i : ι} {k : Except ε (ρ i) → Program ι ρ ε α} {P : σ → Prop}
    (hP : env.Stable P) (hs : P s)
    (hstep : ∀ {t c}, P t → env.may c i → match M.step c t i with
      | none => env.mayBlock
      | some (r, t') => env.guar t t' ∧ (k r).Ensures env Q t') :
    (Program.call i k).Ensures env Q s :=
  fun _ hst _ hc => hstep (hP hst hs) hc

theorem Ensures.mono {p : Program ι ρ ε α} (hp : p.Ensures env Q s)
    (hQ : ∀ {r t}, Q r t → Q' r t) : p.Ensures env Q' s := by
  induction p generalizing s with
  | pure a => exact fun t hst => hQ (hp t hst)
  | throw e => exact fun t hst => hQ (hp t hst)
  | call i k ih =>
      intro t hst c hc
      have h := hp t hst c hc
      cases hi : M.step c t i with
      | none => rw [hi] at h; exact h
      | some rs => rw [hi] at h; exact ⟨h.1, ih rs.1 h.2⟩

/-- The frame rule: what the environment and every call of the program keep holds at the end. -/
theorem Ensures.frame {allowed : ι → Prop} {R : σ → Prop} (hR : env.Stable R)
    (hstep : ∀ {c s i r s'}, allowed i → R s → M.step c s i = some (r, s') → R s')
    {p : Program ι ρ ε α} (hp : p.Ensures env Q s) (huses : p.Uses allowed) (hs : R s) :
    p.Ensures env (fun r t => Q r t ∧ R t) s := by
  induction p generalizing s with
  | pure a => exact fun t hst => ⟨hp t hst, hR hst hs⟩
  | throw e => exact fun t hst => ⟨hp t hst, hR hst hs⟩
  | call i k ih =>
      intro t hst c hc
      have h := hp t hst c hc
      rcases hi : M.step c t i with _ | ⟨r, t'⟩
      · rw [hi] at h
        exact h
      · rw [hi] at h
        exact ⟨h.1, ih r h.2 (huses.2 r) (hstep huses.1 (hR hst hs) hi)⟩

/-- The contract of a sequence: what follows an exception is the contract of the whole. -/
theorem Ensures.bind {p : Program ι ρ ε α} {f : α → Program ι ρ ε β}
    {Q : Except ε β → σ → Prop}
    (hp : p.Ensures env (fun r t => match r with
      | .ok a => (f a).Ensures env Q t
      | .error e => (Program.throw e : Program ι ρ ε β).Ensures env Q t) s) :
    (p.bind f).Ensures env Q s := by
  induction p generalizing s with
  | pure a => exact hp s (env.refl s)
  | throw e => exact hp s (env.refl s)
  | call i k ih =>
      intro t hst c hc
      have h := hp t hst c hc
      cases hi : M.step c t i with
      | none => rw [hi] at h; exact h
      | some rs => rw [hi] at h; exact ⟨h.1, ih rs.1 h.2⟩

/-- The contract of a `try`: the handler has to meet the contract from every exception. -/
theorem Ensures.tryExcept {p : Program ι ρ ε α} {h : ε → Program ι ρ ε α}
    (hp : p.Ensures env (fun r t => match r with
      | .ok a => (Program.pure a : Program ι ρ ε α).Ensures env Q t
      | .error e => (h e).Ensures env Q t) s) :
    (p.tryExcept h).Ensures env Q s := by
  induction p generalizing s with
  | pure a => exact hp s (env.refl s)
  | throw e => exact hp s (env.refl s)
  | call i k ih =>
      intro t hst c hc
      have h := hp t hst c hc
      cases hi : M.step c t i with
      | none => rw [hi] at h; exact h
      | some rs => rw [hi] at h; exact ⟨h.1, ih rs.1 h.2⟩

/-- The rule for a single call as a program of its own. -/
theorem ensures_request {i : ι} {Q : Except ε (ρ i) → σ → Prop} {P : σ → Prop}
    (hP : env.Stable P) (hQ : ∀ r, env.Stable (Q r)) (hs : P s)
    (hstep : ∀ {t c}, P t → env.may c i → match M.step c t i with
      | none => env.mayBlock
      | some (r, t') => env.guar t t' ∧ Q r t') :
    (request i : Program ι ρ ε (ρ i)).Ensures env Q s := by
  refine ensures_call hP hs ?_
  intro t c ht hc
  have h := hstep ht hc
  cases hi : M.step c t i with
  | none => rw [hi] at h; exact h
  | some rs =>
      obtain ⟨r, t'⟩ := rs
      rw [hi] at h
      refine ⟨h.1, ?_⟩
      cases r with
      | ok a => exact ensures_pure (hQ _) h.2
      | error e => exact ensures_throw (hQ _) h.2

/-- The rule for a loop over a list: `I done b` holds when `done` has been processed with the
accumulator `b`, and an iteration that raises meets the contract of the whole. -/
theorem ensures_foldlM {f : β → α → Program ι ρ ε β} {Q : Except ε β → σ → Prop}
    {I : List α → β → σ → Prop} {xs : List α} (hI : ∀ done b, env.Stable (I done b))
    (hbody : ∀ {done x rest b t}, xs = done ++ x :: rest → I done b t →
      (f b x).Ensures env (fun r t => match r with
        | .ok b' => I (done ++ [x]) b' t
        | .error e => Q (.error e) t) t)
    (hQ : ∀ e, env.Stable (Q (.error e)))
    (hlast : ∀ {b t}, I xs b t → Q (.ok b) t) {b : β} (hs : I [] b s) :
    (xs.foldlM f b).Ensures env Q s := by
  have key : ∀ {done rest b s}, xs = done ++ rest → I done b s →
      (rest.foldlM f b).Ensures env Q s := by
    intro done rest
    induction rest generalizing done with
    | nil =>
        intro b s hxs hs t hst
        rw [List.append_nil] at hxs
        exact hlast (hxs ▸ hI _ _ hst hs)
    | cons x rest ih =>
        intro b s hxs hs
        rw [List.foldlM_cons]
        refine Ensures.bind ((hbody hxs hs).mono ?_)
        intro r t ht
        cases r with
        | ok b' => exact ih (by simp [hxs]) ht
        | error e => exact ensures_throw (hQ e) ht
  exact key rfl hs

/-- When the other parties keep to the rely condition and every choice is an allowed one, a run ends
as the contract of the program says. -/
theorem Ensures.of_run {τ : Type} {act : τ → σ → σ} {p : Program ι ρ ε α} (hp : p.Ensures env Q s)
    {sched sched' : ℕ → τ × M.Choice} {r : Except ε α} {s' : σ}
    (hact : ∀ n t, env.rely t (act (sched n).1 t)) (hmay : ∀ n i, env.may (sched n).2 i)
    (hrun : p.run (M.perturbed act) sched s = some (r, sched', s')) : Q r s' := by
  induction p generalizing s sched with
  | pure a => cases hrun; exact hp.returned
  | throw e => cases hrun; exact hp.raised
  | call i k ih =>
      rw [Program.run] at hrun
      rcases hi : (M.perturbed act).step (sched 0) s i with _ | ⟨r₁, s₁⟩
      · rw [hi] at hrun
        cases hrun
      · rw [hi] at hrun
        have hstep := (hp.interfere (hact 0 s)).step (hmay 0 i) hi
        exact ih r₁ hstep.2 (fun n t => hact (n + 1) t) (fun n => hmay (n + 1)) hrun

/-- Undisturbed and never blocked, a program ends under every allowed schedule as its contract
says. -/
theorem Ensures.run {may : M.Choice → ι → Prop} {p : Program ι ρ ε α}
    (hp : p.Ensures (Env.alone M may) Q s) {sched : ℕ → M.Choice}
    (hmay : ∀ n i, may (sched n) i) :
    ∃ r m s', p.run M sched s = some (r, fun n => sched (n + m), s') ∧ Q r s' := by
  induction p generalizing s sched with
  | pure a => exact ⟨_, 0, _, rfl, hp s rfl⟩
  | throw e => exact ⟨_, 0, _, rfl, hp s rfl⟩
  | call i k ih =>
      have h := hp s rfl (sched 0) (hmay 0 i)
      rcases hi : M.step (sched 0) s i with _ | ⟨r₁, s₁⟩
      · rw [hi] at h
        exact h.elim
      · rw [hi] at h
        obtain ⟨r, m, s', hrun, hQ⟩ := ih r₁ h.2 fun n => hmay (n + 1)
        refine ⟨r, m + 1, s', ?_, hQ⟩
        rw [Program.run, hi]
        exact hrun

end Ensures

end Program

end Effect
