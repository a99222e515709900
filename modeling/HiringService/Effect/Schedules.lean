import HiringService.Effect.Expand
import Mathlib.Data.Option.Basic

/-!
# A schedule for each component

The calls of a program may go to several components. `p.runBy M component sched s` is the run of `p`
in which every component follows a schedule of its own, however the calls to the components
alternate. So the behaviour of one component can be varied while that of the others stays fixed.

`Alike R run run'` compares two such runs: both are blocked, or both end with the same outcome and
in states that `R` relates. An expanded program is compared call by call (`Alike.expand`).
-/

namespace Effect.Program

variable {ι ι' : Type} {ρ : ι → Type} {ρ' : ι' → Type} {ε σ α β κ : Type} [DecidableEq κ]

/-- A schedule for each component. -/
abbrev Schedules (M : Machine ι ρ ε σ) (κ : Type) := κ → ℕ → M.Choice

/-- The schedules after a call to the component `c`. -/
def Schedules.next {M : Machine ι ρ ε σ} (sched : Schedules M κ) (c : κ) : Schedules M κ :=
  Function.update sched c fun n => sched c (n + 1)

@[simp] theorem Schedules.next_self {M : Machine ι ρ ε σ} (sched : Schedules M κ) (c : κ) :
    sched.next c c = fun n => sched c (n + 1) :=
  Function.update_self ..

theorem Schedules.next_of_ne {M : Machine ι ρ ε σ} (sched : Schedules M κ) {c d : κ} (h : d ≠ c) :
    sched.next c d = sched d :=
  Function.update_of_ne h ..

/-- Run `p`: the choices at the calls of component `c` are `sched c 0, sched c 1, …`. -/
def runBy (M : Machine ι ρ ε σ) (component : ι → κ) :
    Program ι ρ ε α → Schedules M κ → σ → Option (Except ε α × Schedules M κ × σ)
  | .pure a, sched, s => some (.ok a, sched, s)
  | .throw e, sched, s => some (.error e, sched, s)
  | .call i k, sched, s =>
      match M.step (sched (component i) 0) s i with
      | none => none
      | some (r, s') => (k r).runBy M component (sched.next (component i)) s'

variable {M : Machine ι ρ ε σ} {component : ι → κ}

/-- A single call. -/
theorem runBy_request {i : ι} {sched : Schedules M κ} {s : σ} :
    (request i : Program ι ρ ε (ρ i)).runBy M component sched s =
      (M.step (sched (component i) 0) s i).map fun r => (r.1, sched.next (component i), r.2) := by
  rw [request, runBy]
  rcases M.step (sched (component i) 0) s i with _ | ⟨_ | _, s'⟩
  · rfl
  · rfl
  · rfl

theorem runBy_attempt {p : Program ι ρ ε α} {k : Except ε α → Program ι ρ ε β}
    {sched : Schedules M κ} {s : σ} :
    (p.attempt k).runBy M component sched s =
      match p.runBy M component sched s with
      | none => none
      | some (r, sched', s') => (k r).runBy M component sched' s' := by
  induction p generalizing sched s with
  | pure a => rfl
  | throw e => rfl
  | call i k' ih =>
      simp only [attempt, runBy]
      rcases M.step (sched (component i) 0) s i with _ | ⟨r, s'⟩
      · rfl
      · exact ih r

/-- A run is one of the runs of the program. -/
theorem traces_of_runBy {p : Program ι ρ ε α} {sched sched' : Schedules M κ} {s s' : σ}
    {out : Except ε α} (h : p.runBy M component sched s = some (out, sched', s')) :
    ∃ log, p.Traces M s log out s' := by
  induction p generalizing sched s with
  | pure a =>
      cases h
      exact ⟨[], .pure⟩
  | throw e =>
      cases h
      exact ⟨[], .throw⟩
  | call i k ih =>
      rw [runBy] at h
      rcases hstep : M.step (sched (component i) 0) s i with _ | ⟨r, s₁⟩
      · rw [hstep] at h
        cases h
      · rw [hstep] at h
        obtain ⟨log, hlog⟩ := ih r h
        exact ⟨_, .call hstep hlog⟩

/-- A program that only calls the component `c`, where no call blocks and every call keeps `I`: it
ends, and the schedules of the other components are left as they were. -/
theorem runBy_frame {p : Program ι ρ ε α} {allowed : ι → Prop} {I : σ → Prop} {c : κ}
    (hp : p.Uses allowed) (hcomponent : ∀ i, allowed i → component i = c)
    (hstep : ∀ {x s} i, allowed i → I s → ∃ r s', M.step x s i = some (r, s') ∧ I s')
    (sched : Schedules M κ) {s : σ} (hs : I s) :
    ∃ out sched' s', p.runBy M component sched s = some (out, sched', s') ∧
      (∀ d, d ≠ c → sched' d = sched d) ∧ I s' := by
  induction p generalizing sched s with
  | pure a => exact ⟨_, _, _, rfl, fun _ _ => rfl, hs⟩
  | throw e => exact ⟨_, _, _, rfl, fun _ _ => rfl, hs⟩
  | call i k ih =>
      obtain ⟨r, s₁, hcall, hs₁⟩ := hstep (x := sched (component i) 0) i hp.1 hs
      obtain ⟨out, sched', s', hrun, hothers, hs'⟩ :=
        ih r (hp.2 r) (sched.next (component i)) hs₁
      refine ⟨out, sched', s', ?_, fun d hd => ?_, hs'⟩
      · rw [runBy, hcall]
        exact hrun
      · rw [hothers d hd, sched.next_of_ne (by rw [hcomponent i hp.1]; exact hd)]

/-- Both runs are blocked, or they end with the same outcome and `R` relates what is left of the
schedules and the states. -/
def Alike (R : Schedules M κ × σ → Schedules M κ × σ → Prop) :
    Option (Except ε α × Schedules M κ × σ) → Option (Except ε α × Schedules M κ × σ) → Prop :=
  Option.Rel fun x y => x.1 = y.1 ∧ R x.2 y.2

section Alike

variable {R : Schedules M κ × σ → Schedules M κ × σ → Prop}

theorem Alike.attempt {p p' : Program ι ρ ε α} {k : Except ε α → Program ι ρ ε β}
    {x y : Schedules M κ × σ}
    (hp : Alike R (p.runBy M component x.1 x.2) (p'.runBy M component y.1 y.2))
    (hk : ∀ r {x y}, R x y →
      Alike R ((k r).runBy M component x.1 x.2) ((k r).runBy M component y.1 y.2)) :
    Alike R ((p.attempt k).runBy M component x.1 x.2) ((p'.attempt k).runBy M component y.1 y.2) := by
  rw [runBy_attempt, runBy_attempt]
  generalize p.runBy M component x.1 x.2 = run at hp ⊢
  generalize p'.runBy M component y.1 y.2 = run' at hp ⊢
  cases hp with
  | none => exact .none
  | @some end₁ end₂ hends =>
      obtain ⟨r, left₁⟩ := end₁
      obtain ⟨r', left₂⟩ := end₂
      obtain ⟨rfl, hR⟩ := hends
      exact hk r hR

/-- A program is compared call by call. -/
theorem Alike.expand {κ' : Type} {ρ₀ : κ' → Type} {h : (i : κ') → Program ι ρ ε (ρ₀ i)}
    {allowed : κ' → Prop} {p : Program κ' ρ₀ ε α} (hp : p.Uses allowed)
    (hh : ∀ i, allowed i → ∀ {x y}, R x y →
      Alike R ((h i).runBy M component x.1 x.2) ((h i).runBy M component y.1 y.2))
    {x y : Schedules M κ × σ} (hxy : R x y) :
    Alike R ((p.expand h).runBy M component x.1 x.2) ((p.expand h).runBy M component y.1 y.2) := by
  induction p generalizing x y with
  | pure a => exact .some ⟨rfl, hxy⟩
  | throw e => exact .some ⟨rfl, hxy⟩
  | call i k ih => exact (hh i hp.1 hxy).attempt fun r => ih r (hp.2 r)

omit [DecidableEq κ] in
/-- What is read off related states is the same after both runs. -/
theorem Alike.map_eq {τ : Type} {f : Schedules M κ × σ → τ}
    {run run' : Option (Except ε α × Schedules M κ × σ)} (h : Alike R run run')
    (hf : ∀ {x y}, R x y → f x = f y) :
    (run.map fun z => (z.1, f z.2)) = run'.map fun z => (z.1, f z.2) := by
  cases h with
  | none => rfl
  | some hends =>
      simp only [Option.map_some]
      rw [hends.1, hf hends.2]

end Alike

end Effect.Program
