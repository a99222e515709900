import HiringService.Effect.Program

/-!
# Typestates

A `Typestate` is an automaton that reads the calls of a program and their answers: it says which
calls are legal in a state and which state an answer leads to. `p.Typed T Q k` is the static check
that `p`, started in the state `k`, makes legal calls only, whatever the answers are, and ends with
an outcome and in a state that satisfy `Q`. It is put together along the program.
-/

namespace Effect

/-- An automaton over calls and their answers. -/
structure Typestate (ι : Type) (ρ : ι → Type) (ε κ : Type) where
  legal : κ → ι → Prop
  next : κ → (i : ι) → Except ε (ρ i) → κ

namespace Program

variable {ι : Type} {ρ : ι → Type} {ε κ α β : Type}

/-- From the state `k` on, every call of the program is legal, and its end satisfies `Q`. -/
def Typed (T : Typestate ι ρ ε κ) (Q : Except ε α → κ → Prop) : Program ι ρ ε α → κ → Prop
  | .pure a, k => Q (.ok a) k
  | .throw e, k => Q (.error e) k
  | .call i p, k => T.legal k i ∧ ∀ r, (p r).Typed T Q (T.next k i r)

section Typed

variable {T : Typestate ι ρ ε κ} {Q Q' : Except ε α → κ → Prop} {k : κ}

theorem Typed.mono {p : Program ι ρ ε α} (hp : p.Typed T Q k) (hQ : ∀ {r k}, Q r k → Q' r k) :
    p.Typed T Q' k := by
  induction p generalizing k with
  | pure a => exact hQ hp
  | throw e => exact hQ hp
  | call i p ih => exact ⟨hp.1, fun r => ih r (hp.2 r)⟩

/-- A program that only makes calls which are legal in every state. -/
theorem typed_of_uses {p : Program ι ρ ε α} {allowed : ι → Prop} (hp : p.Uses allowed)
    (hlegal : ∀ k i, allowed i → T.legal k i) : p.Typed T (fun _ _ => True) k := by
  induction p generalizing k with
  | pure a => trivial
  | throw e => trivial
  | call i p ih => exact ⟨hlegal k i hp.1, fun r => ih r (hp.2 r)⟩

/-- A single call and what follows it. -/
theorem typed_call_bind {i : ι} {f : ρ i → Program ι ρ ε α} (hlegal : T.legal k i)
    (hok : ∀ a, (f a).Typed T Q (T.next k i (.ok a)))
    (herror : ∀ e, Q (.error e) (T.next k i (.error e))) : ((request i).bind f).Typed T Q k := by
  refine ⟨hlegal, fun r => ?_⟩
  cases r with
  | ok a => exact hok a
  | error e => exact herror e

theorem Typed.bind {p : Program ι ρ ε α} {f : α → Program ι ρ ε β} {Q : Except ε β → κ → Prop}
    (hp : p.Typed T (fun r k => match r with
      | .ok a => (f a).Typed T Q k
      | .error e => Q (.error e) k) k) : (p.bind f).Typed T Q k := by
  induction p generalizing k with
  | pure a => exact hp
  | throw e => exact hp
  | call i p ih => exact ⟨hp.1, fun r => ih r (hp.2 r)⟩

theorem Typed.tryExcept {p : Program ι ρ ε α} {handler : ε → Program ι ρ ε α}
    (hp : p.Typed T (fun r k => match r with
      | .ok a => Q (.ok a) k
      | .error e => (handler e).Typed T Q k) k) : (p.tryExcept handler).Typed T Q k := by
  induction p generalizing k with
  | pure a => exact hp
  | throw e => exact hp
  | call i p ih => exact ⟨hp.1, fun r => ih r (hp.2 r)⟩

/-- A loop over a list whose body leads from `k` back to `k` when it returns. -/
theorem typed_foldlM {f : β → α → Program ι ρ ε β} {Q : Except ε β → κ → Prop} {xs : List α}
    (hbody : ∀ b x, (f b x).Typed T (fun r k' => match r with
      | .ok _ => k' = k
      | .error e => Q (.error e) k') k)
    (hlast : ∀ b, Q (.ok b) k) (b : β) : (xs.foldlM f b).Typed T Q k := by
  induction xs generalizing b with
  | nil => exact hlast b
  | cons x xs ih =>
      refine Typed.bind ((hbody b x).mono fun {r k'} h => ?_)
      cases r with
      | ok b' =>
          subst h
          exact ih b'
      | error e => exact h

end Typed

end Program

end Effect
