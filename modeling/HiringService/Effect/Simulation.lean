import HiringService.Effect.Parallel

/-!
# One level of calls over another

The calls of a lower machine stand for calls of an upper one. A lower program refines an upper one
if it makes the calls that stand for those of the upper program, goes on alike after replies that
correspond, and ends alike. The upper program may make further calls on its own, such as one that
fails where the lower program has not got as far as to make it.

Where every step of the lower machine is matched by the upper one, every interleaving of lower
programs is matched by an interleaving of the upper programs they refine (`Interleaves.refines`).
-/

namespace Effect

variable {ι ι' : Type} {ρ : ι → Type} {ρ' : ι' → Type} {ε σ σ' α β κ : Type}

/-- What lower calls and replies stand for. -/
structure Levels (ι : Type) (ρ : ι → Type) (ι' : Type) (ρ' : ι' → Type) (ε : Type) where
  up : ι → ι'
  /-- The calls that lower programs may make. -/
  made : ι → Prop
  reply : (i : ι) → Except ε (ρ i) → Except ε (ρ' (up i)) → Prop
  /-- The upper call may be made, and be answered so, where there is no lower call. -/
  silent : (j : ι') → Except ε (ρ' j) → Prop

namespace Program

variable (L : Levels ι ρ ι' ρ' ε)

/-- The upper program comes from one to the other by calls of its own. -/
inductive Settles : Program ι' ρ' ε α → Program ι' ρ' ε α → Prop
  | refl (p : Program ι' ρ' ε α) : Settles p p
  | call {j : ι'} {k : Except ε (ρ' j) → Program ι' ρ' ε α} {r : Except ε (ρ' j)}
      {p : Program ι' ρ' ε α} (hr : L.silent j r) (hrest : Settles (k r) p) : Settles (.call j k) p

/-- The lower program does what the upper one does. -/
inductive Refines : Program ι ρ ε α → Program ι' ρ' ε α → Prop
  | pure (a : α) : Refines (.pure a) (.pure a)
  | throw (e : ε) : Refines (.throw e) (.throw e)
  | call {i : ι} {k : Except ε (ρ i) → Program ι ρ ε α}
      {k' : Except ε (ρ' (L.up i)) → Program ι' ρ' ε α}
      {next : (r : Except ε (ρ i)) → (r' : Except ε (ρ' (L.up i))) → L.reply i r r' →
        Program ι' ρ' ε α} (hi : L.made i)
      (hnext : ∀ r r' hr, Settles L (k' r') (next r r' hr))
      (hk : ∀ r r' hr, Refines (k r) (next r r' hr)) :
      Refines (.call i k) (.call (L.up i) k')

variable {L}

theorem Settles.attempt {p p' : Program ι' ρ' ε α} {k : Except ε α → Program ι' ρ' ε β}
    (h : Settles L p p') : Settles L (p.attempt k) (p'.attempt k) := by
  induction h with
  | refl p => exact .refl _
  | call hr hrest ih => exact .call hr ih

/-- A call, behind which the upper program may make calls of its own. -/
theorem Refines.call_settles {i : ι} {k : Except ε (ρ i) → Program ι ρ ε α}
    {k' : Except ε (ρ' (L.up i)) → Program ι' ρ' ε α} (hi : L.made i)
    (hk : ∀ r r', L.reply i r r' → ∃ p, Settles L (k' r') p ∧ Refines L (k r) p) :
    Refines L (.call i k) (.call (L.up i) k') := by
  choose next hnext hrefines using hk
  exact .call hi hnext hrefines

/-- A call, behind which the upper program makes none of its own. -/
theorem Refines.call_next {i : ι} {k : Except ε (ρ i) → Program ι ρ ε α}
    {k' : Except ε (ρ' (L.up i)) → Program ι' ρ' ε α} (hi : L.made i)
    (hk : ∀ r r', L.reply i r r' → Refines L (k r) (k' r')) :
    Refines L (.call i k) (.call (L.up i) k') :=
  call_settles hi fun r r' hr => ⟨k' r', .refl _, hk r r' hr⟩

/-- Two programs, one after the other. -/
theorem Refines.attempt {p : Program ι ρ ε α} {p' : Program ι' ρ' ε α}
    {k : Except ε α → Program ι ρ ε β} {k' : Except ε α → Program ι' ρ' ε β}
    (h : Refines L p p') (hk : ∀ r, Refines L (k r) (k' r)) :
    Refines L (p.attempt k) (p'.attempt k') := by
  induction h with
  | pure a => exact hk _
  | throw e => exact hk _
  | call hi hnext hrest ih =>
      exact call_settles hi fun r r' hr => ⟨_, (hnext r r' hr).attempt, ih r r' hr⟩

/-- Every call is made by programs of the two levels. -/
theorem Refines.expand {ι₀ : Type} {ρ₀ : ι₀ → Type} {p : Program ι₀ ρ₀ ε α} {allowed : ι₀ → Prop}
    {h : (i : ι₀) → Program ι ρ ε (ρ₀ i)} {h' : (i : ι₀) → Program ι' ρ' ε (ρ₀ i)}
    (hp : p.Uses allowed) (hh : ∀ i, allowed i → Refines L (h i) (h' i)) :
    Refines L (p.expand h) (p.expand h') := by
  induction p with
  | pure a => exact .pure a
  | throw e => exact .throw e
  | call i k ih => exact (hh i hp.1).attempt fun r => ih r (hp.2 r)

end Program

/-- Every step of the lower machine is matched by the upper one, and the calls that the upper
programs make on their own change nothing. -/
structure Simulates (L : Levels ι ρ ι' ρ' ε) (M : Machine ι ρ ε σ) (M' : Machine ι' ρ' ε σ')
    (R : σ → σ' → Prop) : Prop where
  step : ∀ {c s i r s₁ t}, M.step c s i = some (r, s₁) → L.made i → R s t →
    ∃ c' r' t₁, M'.step c' t (L.up i) = some (r', t₁) ∧ L.reply i r r' ∧ R s₁ t₁
  silent : ∀ {s t j r'}, R s t → L.silent j r' → ∃ c' t₁, M'.step c' t j = some (r', t₁) ∧ R s t₁

section Interleaving

variable {L : Levels ι ρ ι' ρ' ε} {M : κ → Machine ι ρ ε σ}
  {M' : κ → Machine ι' ρ' ε σ'} {R : σ → σ' → Prop}

/-- The call of the upper level is that of the lower one. -/
def Matches (L : Levels ι ρ ι' ρ' ε) (R : σ → σ' → Prop) (x : Act M) (y : Act M') : Prop :=
  x.1 = y.1 ∧ R x.2.before y.2.before ∧ R x.2.after y.2.after ∧
    ∃ r', y.2.answer = ⟨L.up x.2.op, r'⟩ ∧ L.reply x.2.op x.2.reply r'

/-- Every call of the upper level is one of the lower level, or was made by the upper programs on
their own. -/
def Covers (L : Levels ι ρ ι' ρ' ε) (R : σ → σ' → Prop) (log : List (Act M))
    (log' : List (Act M')) : Prop :=
  ∀ y ∈ log', L.silent y.2.op y.2.reply ∨ ∃ x ∈ log, Matches L R x y

variable {ps ps₁ : κ → Program ι ρ ε α} {ps' ps₁' : κ → Program ι' ρ' ε α} {s s₁ : σ} {t t₁ : σ'}
  {log : List (Act M)} {log' : List (Act M')}

theorem Covers.snoc {y : Act M'} (h : Covers L R log log')
    (hy : L.silent y.2.op y.2.reply ∨ ∃ x ∈ log, Matches L R x y) :
    Covers L R log (log' ++ [y]) := by
  intro z hz
  rcases List.mem_append.mp hz with hz | hz
  · exact h z hz
  · rwa [List.mem_singleton.mp hz]

theorem Covers.mono {more : List (Act M)} (h : Covers L R log log') :
    Covers L R (log ++ more) log' := by
  intro y hy
  rcases h y hy with hsilent | ⟨x, hx, hmatch⟩
  · exact .inl hsilent
  · exact .inr ⟨x, List.mem_append_left _ hx, hmatch⟩

variable [DecidableEq κ]

/-- The upper program of a process makes the calls that it makes on its own. -/
theorem Interleaves.settle (hsim : ∀ q, Simulates L (M q) (M' q) R) {q : κ}
    {p : Program ι' ρ' ε α} (h : (ps₁' q).Settles L p) (hrun : Interleaves M' ps' t log' ps₁' t₁)
    (hR : R s t₁) (hlog : Covers L R log log') :
    ∃ log'' t₂, Interleaves M' ps' t log'' (Function.update ps₁' q p) t₂ ∧ R s t₂ ∧
      Covers L R log log'' := by
  generalize hp : ps₁' q = p₁ at h
  induction h generalizing log' ps₁' t₁ with
  | refl p =>
      rw [← hp, Function.update_eq_self]
      exact ⟨log', t₁, hrun, hR, hlog⟩
  | @call j k r p hr hrest ih =>
      obtain ⟨c', t₂, hstep, hR₂⟩ := (hsim q).silent hR hr
      obtain ⟨log'', t₃, hrun', hR₃, hlog'⟩ := ih (hrun.snoc hp hstep) hR₂ (hlog.snoc (.inl hr))
        (Function.update_self ..)
      rw [Function.update_idem] at hrun'
      exact ⟨log'', t₃, hrun', hR₃, hlog'⟩

/-- Whatever lower programs do in parallel, the upper programs that they refine can do. -/
theorem Interleaves.refines (hsim : ∀ q, Simulates L (M q) (M' q) R)
    (h : Interleaves M ps s log ps₁ s₁) (hps : ∀ q, (ps q).Refines L (ps' q)) (hR : R s t) :
    ∃ log' ps₁' t₁, Interleaves M' ps' t log' ps₁' t₁ ∧ (∀ q, (ps₁ q).Refines L (ps₁' q)) ∧
      R s₁ t₁ ∧ Covers L R log log' := by
  induction h with
  | nil => exact ⟨[], ps', t, .nil, hps, hR, List.forall_mem_nil _⟩
  | @snoc log ps₁ s₁ s₂ q i k c r hlog hq hstep ih =>
      obtain ⟨log', ps₁', t₁, hrun, hrefines, hR₁, hcovers⟩ := ih
      have hrefinesq := hrefines q
      rw [hq] at hrefinesq
      generalize hq' : ps₁' q = p' at hrefinesq
      cases hrefinesq with
      | @call _ _ k' next hi hnext hk =>
          -- the call is matched, and then the silent calls above are made, until the programs match
          -- again
          obtain ⟨c', r', t₂, hstep', hreply, hR₂⟩ := (hsim q).step hstep hi hR₁
          have hmatch : Matches L R (⟨q, i, c, s₁, r, s₂⟩ : Act M)
              (⟨q, L.up i, c', t₁, r', t₂⟩ : Act M') :=
            ⟨rfl, hR₁, hR₂, r', rfl, hreply⟩
          have hsettle : (Function.update ps₁' q (k' r') q).Settles L (next r r' hreply) := by
            rw [Function.update_self]
            exact hnext r r' hreply
          obtain ⟨log'', t₃, hrun', hR₃, hcovers'⟩ := (hrun.snoc hq' hstep').settle hsim hsettle hR₂
            (hcovers.mono.snoc (.inr ⟨_, List.mem_append_right _ (List.mem_singleton_self _), hmatch⟩))
          rw [Function.update_idem] at hrun'
          refine ⟨log'', _, t₃, hrun', fun q₁ => ?_, hR₃, hcovers'⟩
          by_cases hqq : q₁ = q
          · subst hqq
            rw [Function.update_self, Function.update_self]
            exact hk r r' hreply
          · rw [Function.update_of_ne hqq, Function.update_of_ne hqq]
            exact hrefines q₁

end Interleaving

end Effect
