import Mathlib.Data.Set.Card
import Mathlib.Logic.Relation

/-!
# Who waits for whom

Parties wait for parties, and only finitely many are ever waited for. From each party, the waiting
then leads to one that waits for nobody, or into a cycle.
-/

namespace Txn

open Relation (ReflTransGen TransGen)

variable {κ : Type} {waits : κ → κ → Prop} {held : Set κ}

/-- The waiting of `p` ends with a party that waits for nobody, or it leads into a cycle. -/
theorem exists_free_or_cycle (hfinite : held.Finite) (hheld : ∀ {p q}, waits p q → q ∈ held) (p : κ) :
    ∃ q, ReflTransGen waits p q ∧ ((∀ r, ¬ waits q r) ∨ TransGen waits q q) := by
  -- one step of waiting leaves fewer parties that are still waited for
  induction hn : {r | r ∈ held ∧ TransGen waits p r}.ncard using Nat.strong_induction_on
    generalizing p with
  | _ n ih =>
    by_cases hfree : ∀ r, ¬ waits p r
    · exact ⟨p, .refl, Or.inl hfree⟩
    obtain ⟨r, hr⟩ := not_forall_not.mp hfree
    by_cases hcycle : TransGen waits r r
    · exact ⟨r, .single hr, Or.inr hcycle⟩
    have hsub : {q | q ∈ held ∧ TransGen waits r q} ⊂ {q | q ∈ held ∧ TransGen waits p q} := by
      refine ⟨fun q hq => ⟨hq.1, .head hr hq.2⟩, fun hsup => hcycle ?_⟩
      exact (hsup ⟨hheld hr, .single hr⟩).2
    have hless := Set.ncard_lt_ncard hsub (hfinite.subset fun q hq => hq.1)
    obtain ⟨q, hq, hend⟩ := ih _ (hn ▸ hless) r rfl
    exact ⟨q, .head hr hq, hend⟩

end Txn
