import Mathlib.Logic.Function.Basic

/-!
# Programs that call their environment

A `Program` is a finite tree of calls. Every call names an operation `i : ι` and continues with
the reply of the environment, which is a value of `ρ i` or an exception of type `ε`. A program ends
by returning a value or by raising an exception.

The tree says nothing about what a call does: `Effect.Contract` runs it against a machine and
states what it ensures while other parties change the state between its calls.
-/

namespace Effect

/-- A program over the operations `ι` with replies `ρ`, exceptions `ε` and results `α`. -/
inductive Program (ι : Type) (ρ : ι → Type) (ε α : Type) : Type where
  | pure (a : α) : Program ι ρ ε α
  | throw (e : ε) : Program ι ρ ε α
  | call (i : ι) (k : Except ε (ρ i) → Program ι ρ ε α) : Program ι ρ ε α

namespace Program

variable {ι : Type} {ρ : ι → Type} {ε α β γ : Type}

/-- Continue with `f` when `p` returns; an exception of `p` skips `f`. -/
def bind : Program ι ρ ε α → (α → Program ι ρ ε β) → Program ι ρ ε β
  | .pure a, f => f a
  | .throw e, _ => .throw e
  | .call i k, f => .call i fun r => (k r).bind f

/-- `try p except Exception as e: h e`. -/
def tryExcept : Program ι ρ ε α → (ε → Program ι ρ ε α) → Program ι ρ ε α
  | .pure a, _ => .pure a
  | .throw e, h => h e
  | .call i k, h => .call i fun r => (k r).tryExcept h

/-- A single call, whose exception is raised in the program. -/
def request (i : ι) : Program ι ρ ε (ρ i) :=
  .call i fun
    | .ok a => .pure a
    | .error e => .throw e

/-- A computation without calls. -/
def lift : Except ε α → Program ι ρ ε α
  | .ok a => .pure a
  | .error e => .throw e

instance : Monad (Program ι ρ ε) where
  pure := Program.pure
  bind := Program.bind

instance : MonadExceptOf ε (Program ι ρ ε) where
  throw := Program.throw
  tryCatch := Program.tryExcept

@[simp] theorem pure_eq (a : α) : (Pure.pure a : Program ι ρ ε α) = .pure a := rfl

@[simp] theorem throw_eq (e : ε) :
    (MonadExcept.throw e : Program ι ρ ε α) = .throw e := rfl

@[simp] theorem bind_eq (p : Program ι ρ ε α) (f : α → Program ι ρ ε β) :
    p >>= f = p.bind f := rfl

@[simp] theorem pure_bind (a : α) (f : α → Program ι ρ ε β) :
    (Program.pure a : Program ι ρ ε α).bind f = f a := rfl

@[simp] theorem throw_bind (e : ε) (f : α → Program ι ρ ε β) :
    (Program.throw e : Program ι ρ ε α).bind f = .throw e := rfl

/-- Returning at the end adds nothing. -/
theorem bind_pure (p : Program ι ρ ε α) : p.bind .pure = p := by
  induction p with
  | pure a => rfl
  | throw e => rfl
  | call i k ih => exact congrArg (Program.call i) (funext ih)

/-- Three programs in a row. -/
theorem bind_assoc (p : Program ι ρ ε α) (f : α → Program ι ρ ε β) (g : β → Program ι ρ ε γ) :
    (p.bind f).bind g = p.bind fun a => (f a).bind g := by
  induction p with
  | pure a => rfl
  | throw e => rfl
  | call i k ih => exact congrArg (Program.call i) (funext ih)

instance : LawfulMonad (Program ι ρ ε) :=
  LawfulMonad.mk' _ (fun p => bind_pure p) (fun _ _ => rfl) bind_assoc

/-! ## Which operations a program can call -/

/-- Every call that `p` can make, whatever the replies, is of an operation in `allowed`. -/
def Uses (allowed : ι → Prop) : Program ι ρ ε α → Prop
  | .pure _ => True
  | .throw _ => True
  | .call i k => allowed i ∧ ∀ r, (k r).Uses allowed

section Uses

variable {allowed allowed' : ι → Prop}

@[simp] theorem uses_pure (a : α) : (Program.pure a : Program ι ρ ε α).Uses allowed := trivial

@[simp] theorem uses_throw (e : ε) : (Program.throw e : Program ι ρ ε α).Uses allowed := trivial

/-- A single call. -/
theorem uses_request {i : ι} (hi : allowed i) :
    (request i : Program ι ρ ε (ρ i)).Uses allowed :=
  ⟨hi, fun r => by cases r <;> trivial⟩

/-- A computation without calls uses nothing. -/
theorem uses_lift (x : Except ε α) : (lift x : Program ι ρ ε α).Uses allowed := by
  cases x <;> trivial

/-- A program and what follows it. -/
theorem Uses.bind {p : Program ι ρ ε α} {f : α → Program ι ρ ε β} (hp : p.Uses allowed)
    (hf : ∀ a, (f a).Uses allowed) : (p.bind f).Uses allowed := by
  induction p with
  | pure a => exact hf a
  | throw e => trivial
  | call i k ih => exact ⟨hp.1, fun r => ih r (hp.2 r)⟩

/-- A program and its handler. -/
theorem Uses.tryExcept {p : Program ι ρ ε α} {h : ε → Program ι ρ ε α} (hp : p.Uses allowed)
    (hh : ∀ e, (h e).Uses allowed) : (p.tryExcept h).Uses allowed := by
  induction p with
  | pure a => trivial
  | throw e => exact hh e
  | call i k ih => exact ⟨hp.1, fun r => ih r (hp.2 r)⟩

/-- A program that uses less. -/
theorem Uses.mono {p : Program ι ρ ε α} (hp : p.Uses allowed)
    (himp : ∀ i, allowed i → allowed' i) : p.Uses allowed' := by
  induction p with
  | pure a => trivial
  | throw e => trivial
  | call i k ih => exact ⟨himp i hp.1, fun r => ih r (hp.2 r)⟩

/-- A loop over a list uses what its body uses. -/
theorem Uses.foldlM {f : β → α → Program ι ρ ε β} (hf : ∀ b a, (f b a).Uses allowed)
    (xs : List α) (b : β) : (xs.foldlM f b).Uses allowed := by
  induction xs generalizing b with
  | nil => trivial
  | cons x xs ih =>
      rw [List.foldlM_cons]
      exact (hf b x).bind fun b' => ih b'

end Uses

/-! ## What a program can return -/

/-- Every value that `p` can return, whatever the replies, satisfies `P`. -/
def Returns (P : α → Prop) : Program ι ρ ε α → Prop
  | .pure a => P a
  | .throw _ => True
  | .call _ k => ∀ r, (k r).Returns P

/-- What a program returns is handed to what follows it. -/
theorem Returns.bind {P : α → Prop} {P' : β → Prop} {p : Program ι ρ ε α}
    {f : α → Program ι ρ ε β} (hp : p.Returns P) (hf : ∀ a, P a → (f a).Returns P') :
    (p.bind f).Returns P' := by
  induction p with
  | pure a => exact hf a hp
  | throw e => trivial
  | call i k ih => exact fun r => ih r (hp r)

/-- Nothing is claimed about what is returned. -/
theorem returns_true (p : Program ι ρ ε α) : p.Returns fun _ => True := by
  induction p with
  | pure a => trivial
  | throw e => trivial
  | call i k ih => exact fun r => ih r

end Program

end Effect
