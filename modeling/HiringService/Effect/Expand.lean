import HiringService.Effect.Trace

/-!
# Programs over drivers

The operations of a program may themselves be implemented by programs over other operations, as
ports are by the clients behind them. `p.expand h` is `p` with every call of `i` replaced by the
program `h i`.
-/

namespace Effect.Program

variable {ι ι' : Type} {ρ : ι → Type} {ρ' : ι' → Type} {ε σ α β : Type}

/-- Run `p` and go on with its outcome. -/
def attempt : Program ι ρ ε α → (Except ε α → Program ι ρ ε β) → Program ι ρ ε β
  | .pure a, k => k (.ok a)
  | .throw e, k => k (.error e)
  | .call i k', k => .call i fun r => (k' r).attempt k

/-- Every call of `i` is the program `h i`. -/
def expand (h : (i : ι) → Program ι' ρ' ε (ρ i)) : Program ι ρ ε α → Program ι' ρ' ε α
  | .pure a => .pure a
  | .throw e => .throw e
  | .call i k => (h i).attempt fun r => (k r).expand h

section Uses

variable {allowed : ι → Prop} {allowed' : ι' → Prop}

theorem Uses.attempt {p : Program ι ρ ε α} {k : Except ε α → Program ι ρ ε β}
    (hp : p.Uses allowed) (hk : ∀ r, (k r).Uses allowed) : (p.attempt k).Uses allowed := by
  induction p with
  | pure a => exact hk _
  | throw e => exact hk _
  | call i k' ih => exact ⟨hp.1, fun r => ih r (hp.2 r)⟩

/-- An expanded program uses what the programs for its calls use. -/
theorem Uses.expand {h : (i : ι) → Program ι' ρ' ε (ρ i)} {p : Program ι ρ ε α}
    (hp : p.Uses allowed) (hh : ∀ i, allowed i → (h i).Uses allowed') :
    (p.expand h).Uses allowed' := by
  induction p with
  | pure a => trivial
  | throw e => trivial
  | call i k ih => exact (hh i hp.1).attempt fun r => ih r (hp.2 r)

end Uses

section Traces

variable {M : Machine ι ρ ε σ} {s s' : σ} {log : List (Transition M)} {out : Except ε β}

/-- The log of a program and of what follows its outcome. -/
theorem Traces.attempt_inv {p : Program ι ρ ε α} {k : Except ε α → Program ι ρ ε β}
    (h : (p.attempt k).Traces M s log out s') :
    ∃ r log₁ log₂ s₁, log = log₁ ++ log₂ ∧ p.Traces M s log₁ r s₁ ∧ (k r).Traces M s₁ log₂ out s' := by
  induction p generalizing s log with
  | pure a => exact ⟨.ok a, [], log, s, rfl, .pure, h⟩
  | throw e => exact ⟨.error e, [], log, s, rfl, .throw, h⟩
  | call i k' ih =>
      obtain ⟨c, r, t, rest, hstep, rfl, hrest⟩ := h.call_inv
      obtain ⟨r', log₁, log₂, s₁, rfl, h₁, h₂⟩ := ih r hrest
      exact ⟨r', _ :: log₁, log₂, s₁, rfl, .call hstep h₁, h₂⟩

end Traces

end Effect.Program
