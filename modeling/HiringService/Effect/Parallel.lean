import HiringService.Effect.Expand
import Mathlib.Data.List.Induction

/-!
# Programs that run in parallel

`Interleaves M ps s log ps' s'`: from the state `s` the processes `ps`, each with a program of its
own, make the calls `log` in this order and leave the programs `ps'` and the state `s'`. Any process
may make the next call, so every order of the calls is covered.

What one process does is stated without the machine: `p.Follows allowed Q past` says that `p`, after
the answers `past`, makes only calls that `allowed` permits after the answers it has got so far, and
that its outcome and all its answers satisfy `Q`. `Interleaves.follows` carries this over to the
processes of a log, and `Interleaves.invariant` is the rule for what they keep together.
-/

namespace Effect

/-- A call and what was replied to it. -/
abbrev Answer (ι : Type) (ρ : ι → Type) (ε : Type) := (i : ι) × Except ε (ρ i)

/-- What a call on a machine was, and its reply. -/
def Transition.answer {ι : Type} {ρ : ι → Type} {ε σ : Type} {M : Machine ι ρ ε σ}
    (x : Transition M) : Answer ι ρ ε :=
  ⟨x.op, x.reply⟩

namespace Program

variable {ι : Type} {ρ : ι → Type} {ε α β : Type}

/-! ## What a program does after what it has been answered -/

/-- After the answers `past`, every call of the program is allowed after the answers before it, and
the outcome satisfies `Q` together with all the answers. -/
def Follows (allowed : List (Answer ι ρ ε) → ι → Prop)
    (Q : List (Answer ι ρ ε) → Except ε α → Prop) :
    Program ι ρ ε α → List (Answer ι ρ ε) → Prop
  | .pure a, past => Q past (.ok a)
  | .throw e, past => Q past (.error e)
  | .call i k, past => allowed past i ∧ ∀ r, (k r).Follows allowed Q (past ++ [⟨i, r⟩])

section Follows

variable {allowed : List (Answer ι ρ ε) → ι → Prop} {past : List (Answer ι ρ ε)}

/-- A program that only makes calls that are always allowed. -/
theorem follows_of_uses {p : Program ι ρ ε α} {free : ι → Prop}
    {Q : List (Answer ι ρ ε) → Except ε α → Prop} (hp : p.Uses free)
    (hfree : ∀ past i, free i → allowed past i) (hQ : ∀ past out, Q past out) :
    p.Follows allowed Q past := by
  induction p generalizing past with
  | pure a => exact hQ _ _
  | throw e => exact hQ _ _
  | call i k ih => exact ⟨hfree past i hp.1, fun r => ih r (hp.2 r)⟩

/-- A program and what follows its outcome. -/
theorem Follows.attempt {p : Program ι ρ ε α} {k : Except ε α → Program ι ρ ε β}
    {Q : List (Answer ι ρ ε) → Except ε β → Prop}
    (hp : p.Follows allowed (fun past r => (k r).Follows allowed Q past) past) :
    (p.attempt k).Follows allowed Q past := by
  induction p generalizing past with
  | pure a => exact hp
  | throw e => exact hp
  | call i k' ih => exact ⟨hp.1, fun r => ih r (hp.2 r)⟩

end Follows

end Program

/-! ## Interleavings -/

section Interleaving

variable {ι : Type} {ρ : ι → Type} {ε σ α κ : Type} [DecidableEq κ]

/-- A call, and the process that has made it. -/
abbrev Act (M : κ → Machine ι ρ ε σ) := (q : κ) × Transition (M q)

/-- The answers that `q` has got. -/
def past {M : κ → Machine ι ρ ε σ} (q : κ) (log : List (Act M)) : List (Answer ι ρ ε) :=
  log.filterMap fun x => if x.1 = q then some x.2.answer else none

/-- The calls of processes in the order in which they are made. -/
inductive Interleaves (M : κ → Machine ι ρ ε σ) (ps : κ → Program ι ρ ε α) (s : σ) :
    List (Act M) → (κ → Program ι ρ ε α) → σ → Prop
  | nil : Interleaves M ps s [] ps s
  | snoc {log : List (Act M)} {ps₁ : κ → Program ι ρ ε α} {s₁ s₂ : σ} {q : κ} {i : ι}
      {k : Except ε (ρ i) → Program ι ρ ε α} {c : (M q).Choice} {r : Except ε (ρ i)}
      (hlog : Interleaves M ps s log ps₁ s₁) (hq : ps₁ q = .call i k)
      (hstep : (M q).step c s₁ i = some (r, s₂)) :
      Interleaves M ps s (log ++ [⟨q, i, c, s₁, r, s₂⟩]) (Function.update ps₁ q (k r)) s₂

variable {M : κ → Machine ι ρ ε σ} {ps ps' : κ → Program ι ρ ε α} {s s' : σ} {log : List (Act M)}

theorem past_snoc_self (q : κ) (x : Transition (M q)) :
    past q (log ++ [⟨q, x⟩]) = past q log ++ [x.answer] := by
  simp [past]

theorem past_snoc_of_ne {q : κ} {x : Act M} (hx : x.1 ≠ q) : past q (log ++ [x]) = past q log := by
  simp [past, hx]

theorem mem_past {q : κ} {a : Answer ι ρ ε} :
    a ∈ past q log ↔ ∃ x ∈ log, x.1 = q ∧ x.2.answer = a := by
  simp [past, List.mem_filterMap]

/-- The processes of an interleaving follow what they have followed from the start. -/
theorem Interleaves.follows {allowed : κ → List (Answer ι ρ ε) → ι → Prop}
    {Q : κ → List (Answer ι ρ ε) → Except ε α → Prop} (h : Interleaves M ps s log ps' s')
    (hps : ∀ q, (ps q).Follows (allowed q) (Q q) []) (q : κ) :
    (ps' q).Follows (allowed q) (Q q) (past q log) := by
  induction h with
  | nil => exact hps q
  | @snoc log ps₁ s₁ s₂ q' i k c r hlog hq hstep ih =>
      by_cases hqq : q' = q
      · subst hqq
        rw [Function.update_self, past_snoc_self]
        rw [hq] at ih
        exact ih.2 r
      · rw [Function.update_of_ne (Ne.symm hqq), past_snoc_of_ne hqq]
        exact ih

/-- The state at a call of an interleaving: what was made before it, and the step of the machine. -/
theorem Interleaves.at_call {pre post : List (Act M)} {x : Act M}
    (h : Interleaves M ps s (pre ++ x :: post) ps' s') :
    ∃ ps₁ k, Interleaves M ps s pre ps₁ x.2.before ∧ ps₁ x.1 = .call x.2.op k ∧
      (M x.1).step x.2.choice x.2.before x.2.op = some (x.2.reply, x.2.after) := by
  generalize hl : pre ++ x :: post = l at h
  induction h generalizing post with
  | nil => simp at hl
  | @snoc log ps₁ s₁ s₂ q i k c r hlog hq hstep ih =>
      rcases List.eq_nil_or_concat post with rfl | ⟨post', y, rfl⟩
      · obtain ⟨rfl, hx⟩ := List.append_inj' hl rfl
        cases hx
        exact ⟨ps₁, k, hlog, hq, hstep⟩
      · have hl' : (pre ++ x :: post') ++ [y] = log ++ [⟨q, i, c, s₁, r, s₂⟩] := by
          simpa using hl
        exact ih (List.append_inj' hl' rfl).1

/-- Every call of an interleaving is a step of the machine. -/
theorem Interleaves.step (h : Interleaves M ps s log ps' s') {x : Act M} (hx : x ∈ log) :
    (M x.1).step x.2.choice x.2.before x.2.op = some (x.2.reply, x.2.after) := by
  obtain ⟨pre, post, rfl⟩ := List.append_of_mem hx
  obtain ⟨_, _, -, -, hstep⟩ := h.at_call
  exact hstep

/-- What every allowed call keeps, given the calls before it, holds after all calls. -/
theorem Interleaves.invariant {allowed : κ → List (Answer ι ρ ε) → ι → Prop}
    {Q : κ → List (Answer ι ρ ε) → Except ε α → Prop} {J : List (Act M) → σ → Prop}
    (h : Interleaves M ps s log ps' s') (hps : ∀ q, (ps q).Follows (allowed q) (Q q) [])
    (hstep : ∀ pre x ps₁, Interleaves M ps s pre ps₁ x.2.before → J pre x.2.before →
      allowed x.1 (past x.1 pre) x.2.op →
      (M x.1).step x.2.choice x.2.before x.2.op = some (x.2.reply, x.2.after) →
      J (pre ++ [x]) x.2.after)
    (hs : J [] s) : J log s' := by
  induction h with
  | nil => exact hs
  | @snoc log ps₁ s₁ s₂ q i k c r hlog hq hcall ih =>
      have hfollows := hlog.follows hps q
      rw [hq] at hfollows
      exact hstep log ⟨q, i, c, s₁, r, s₂⟩ ps₁ hlog ih hfollows.1 hcall

end Interleaving

end Effect
