import HiringService.Effect.Program

/-!
# Outcomes

`p.Outcomes may P E` says that `p` only returns values in `P` and only raises exceptions in `E`, as
long as every call is answered in a way that `may` allows. This is the discipline of checked
exceptions, with the values that calls return beside the exceptions that they raise. It is put
together along the program.
-/

namespace Effect.Program

variable {ι : Type} {ρ : ι → Type} {ε α β : Type}

/-- Whatever the allowed answers of its calls are, the program returns a value in `P` or raises an
exception in `E`. -/
def Outcomes (may : (i : ι) → Except ε (ρ i) → Prop) (P : α → Prop) (E : ε → Prop) :
    Program ι ρ ε α → Prop
  | .pure a => P a
  | .throw e => E e
  | .call i k => ∀ r, may i r → (k r).Outcomes may P E

section

variable {may : (i : ι) → Except ε (ρ i) → Prop} {P P' : α → Prop} {E E' : ε → Prop}

theorem Outcomes.mono {p : Program ι ρ ε α} (hp : p.Outcomes may P E) (hP : ∀ a, P a → P' a)
    (hE : ∀ e, E e → E' e) : p.Outcomes may P' E' := by
  induction p with
  | pure a => exact hP a hp
  | throw e => exact hE e hp
  | call i k ih => exact fun r hr => ih r (hp r hr)

theorem outcomes_true (p : Program ι ρ ε α) : p.Outcomes may (fun _ => True) fun _ => True := by
  induction p with
  | pure a => trivial
  | throw e => trivial
  | call i k ih => exact fun r _ => ih r

theorem outcomes_request {i : ι} {P : ρ i → Prop} (hP : ∀ a, may i (.ok a) → P a)
    (hE : ∀ e, may i (.error e) → E e) : (request i).Outcomes may P E := by
  intro r hr
  cases r with
  | ok a => exact hP a hr
  | error e => exact hE e hr

theorem Outcomes.bind {p : Program ι ρ ε α} {f : α → Program ι ρ ε β} {P : β → Prop}
    (hp : p.Outcomes may (fun a => (f a).Outcomes may P E) E) : (p.bind f).Outcomes may P E := by
  induction p with
  | pure a => exact hp
  | throw e => exact hp
  | call i k ih => exact fun r hr => ih r (hp r hr)

/-- A call, and what follows it. -/
theorem outcomes_call {i : ι} {f : ρ i → Program ι ρ ε α}
    (hf : ∀ a, may i (.ok a) → (f a).Outcomes may P E) (hE : ∀ e, may i (.error e) → E e) :
    ((request i).bind f).Outcomes may P E :=
  Outcomes.bind (outcomes_request hf hE)

/-- A handler turns the exceptions of the program into outcomes of its own. -/
theorem Outcomes.tryExcept {p : Program ι ρ ε α} {handler : ε → Program ι ρ ε α}
    (hp : p.Outcomes may P fun e => (handler e).Outcomes may P E) :
    (p.tryExcept handler).Outcomes may P E := by
  induction p with
  | pure a => exact hp
  | throw e => exact hp
  | call i k ih => exact fun r hr => ih r (hp r hr)

/-- A loop: its body takes the invariant from the items done so far to one item more. -/
theorem outcomes_foldlM {f : β → α → Program ι ρ ε β} {I : List α → β → Prop}
    (hbody : ∀ done b x, I done b → (f b x).Outcomes may (I (done ++ [x])) E) {xs : List α} {b : β}
    (hb : I [] b) : (xs.foldlM f b).Outcomes may (I xs) E := by
  have hrest : ∀ (rest done : List α) (b : β), done ++ rest = xs → I done b →
      (rest.foldlM f b).Outcomes may (I xs) E := by
    intro rest
    induction rest with
    | nil =>
        intro done b hdone hI
        rw [List.append_nil] at hdone
        exact hdone ▸ hI
    | cons x rest ih =>
        intro done b hdone hI
        rw [List.foldlM_cons]
        refine Outcomes.bind ((hbody done b x hI).mono (fun b' hb' => ?_) fun _ => id)
        exact ih (done ++ [x]) b' (by simpa using hdone) hb'
  exact hrest xs [] b rfl hb

end

end Effect.Program
