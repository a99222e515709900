import Mathlib.Data.List.Basic

/-!
# Insertion in one pass

A `Table` says when a state accepts a record and what inserting the record does. `insertAll` walks a
list of records once, in order, inserts what is accepted and collects the rest. It is the reference
that bulk insertion, chunked insertion and insertion row by row are compared with.
-/

namespace OnePass

/-- The outcome of a pass. -/
structure Outcome (σ α : Type) where
  state : σ
  accepted : List α
  rejected : List α

/-- When a record is accepted and what its insertion does. -/
structure Table (σ α : Type) where
  accepts : σ → α → Prop
  insert : σ → α → σ
  decide : ∀ s a, Decidable (accepts s a)

namespace Table

variable {σ α : Type} (T : Table σ α)

instance (s : σ) (a : α) : Decidable (T.accepts s a) := T.decide s a

/-- Insert the records that are accepted, one after the other. -/
def insertAll (s : σ) : List α → Outcome σ α
  | [] => ⟨s, [], []⟩
  | x :: xs =>
      if T.accepts s x then
        let o := insertAll (T.insert s x) xs
        ⟨o.state, x :: o.accepted, o.rejected⟩
      else
        let o := insertAll s xs
        ⟨o.state, o.accepted, x :: o.rejected⟩

variable {T} {s : σ} {x y : α} {xs ys : List α}

@[simp] theorem insertAll_nil : T.insertAll s [] = ⟨s, [], []⟩ := rfl

theorem insertAll_cons_of_accepts (h : T.accepts s x) :
    T.insertAll s (x :: xs) =
      ⟨(T.insertAll (T.insert s x) xs).state, x :: (T.insertAll (T.insert s x) xs).accepted,
        (T.insertAll (T.insert s x) xs).rejected⟩ := by
  rw [insertAll, if_pos h]

theorem insertAll_cons_of_not_accepts (h : ¬ T.accepts s x) :
    T.insertAll s (x :: xs) =
      ⟨(T.insertAll s xs).state, (T.insertAll s xs).accepted,
        x :: (T.insertAll s xs).rejected⟩ := by
  rw [insertAll, if_neg h]

/-- A pass over two lists is a pass over the first and then one over the second. -/
theorem insertAll_append :
    T.insertAll s (xs ++ ys) =
      ⟨(T.insertAll (T.insertAll s xs).state ys).state,
        (T.insertAll s xs).accepted ++ (T.insertAll (T.insertAll s xs).state ys).accepted,
        (T.insertAll s xs).rejected ++ (T.insertAll (T.insertAll s xs).state ys).rejected⟩ := by
  induction xs generalizing s with
  | nil => rfl
  | cons x xs ih =>
      by_cases h : T.accepts s x
      · rw [List.cons_append, insertAll_cons_of_accepts h, insertAll_cons_of_accepts h, ih]
        rfl
      · rw [List.cons_append, insertAll_cons_of_not_accepts h, insertAll_cons_of_not_accepts h, ih]
        rfl

/-- Every record is accepted or rejected. -/
theorem length_accepted_add_length_rejected :
    (T.insertAll s xs).accepted.length + (T.insertAll s xs).rejected.length = xs.length := by
  induction xs generalizing s with
  | nil => rfl
  | cons x xs ih =>
      by_cases h : T.accepts s x
      · have hxs := ih (s := T.insert s x)
        rw [insertAll_cons_of_accepts h]
        simp only [List.length_cons]
        omega
      · have hxs := ih (s := s)
        rw [insertAll_cons_of_not_accepts h]
        simp only [List.length_cons]
        omega

/-- The final state holds the accepted records, inserted in order. -/
theorem state_eq_foldl :
    (T.insertAll s xs).state = (T.insertAll s xs).accepted.foldl T.insert s := by
  induction xs generalizing s with
  | nil => rfl
  | cons x xs ih =>
      by_cases h : T.accepts s x
      · rw [insertAll_cons_of_accepts h]
        exact ih
      · rw [insertAll_cons_of_not_accepts h]
        exact ih

theorem rejected_cons_eq_nil_iff :
    (T.insertAll s (x :: xs)).rejected = [] ↔
      T.accepts s x ∧ (T.insertAll (T.insert s x) xs).rejected = [] := by
  by_cases h : T.accepts s x
  · rw [insertAll_cons_of_accepts h]
    simp [h]
  · rw [insertAll_cons_of_not_accepts h]
    simp [h]

/-- When nothing is rejected, every record has been inserted. -/
theorem accepted_eq_of_rejected_eq_nil (h : (T.insertAll s xs).rejected = []) :
    (T.insertAll s xs).accepted = xs := by
  induction xs generalizing s with
  | nil => rfl
  | cons x xs ih =>
      obtain ⟨hx, hxs⟩ := rejected_cons_eq_nil_iff.mp h
      rw [insertAll_cons_of_accepts hx]
      exact congrArg (x :: ·) (ih hxs)

/-- A state that accepts none of the records stays as it is. -/
theorem insertAll_of_forall_not_accepts (h : ∀ x ∈ xs, ¬ T.accepts s x) :
    T.insertAll s xs = ⟨s, [], xs⟩ := by
  induction xs with
  | nil => rfl
  | cons x xs ih =>
      rw [insertAll_cons_of_not_accepts (h x List.mem_cons_self),
        ih fun y hy => h y (List.mem_cons_of_mem x hy)]

theorem mem_iff_mem_accepted_or_mem_rejected :
    y ∈ xs ↔ y ∈ (T.insertAll s xs).accepted ∨ y ∈ (T.insertAll s xs).rejected := by
  induction xs generalizing s with
  | nil => simp
  | cons x xs ih =>
      by_cases hx : T.accepts s x
      · rw [insertAll_cons_of_accepts hx, List.mem_cons, List.mem_cons, or_assoc]
        exact or_congr_right ih
      · rw [insertAll_cons_of_not_accepts hx, List.mem_cons, List.mem_cons, or_left_comm]
        exact or_congr_right ih

/-- What holds of every record that some state accepts holds of the accepted records. -/
theorem forall_mem_accepted {P : α → Prop} (hP : ∀ s x, T.accepts s x → P x) :
    ∀ y ∈ (T.insertAll s xs).accepted, P y := by
  induction xs generalizing s with
  | nil => simp
  | cons x xs ih =>
      by_cases hx : T.accepts s x
      · rw [insertAll_cons_of_accepts hx]
        exact List.forall_mem_cons.mpr ⟨hP s x hx, ih⟩
      · rw [insertAll_cons_of_not_accepts hx]
        exact ih

/-! ## Repeating a pass -/

/-- Insertions never make an unacceptable record acceptable, and a record that has been inserted is
not accepted again. -/
structure Monotone (T : Table σ α) : Prop where
  insert_self : ∀ s x, ¬ T.accepts (T.insert s x) x
  insert_of_not : ∀ s x y, ¬ T.accepts s x → ¬ T.accepts (T.insert s y) x

namespace Monotone

variable (hT : T.Monotone)

include hT

/-- What is rejected stays rejected during a pass. -/
theorem insertAll_of_not (h : ¬ T.accepts s y) : ¬ T.accepts (T.insertAll s xs).state y := by
  induction xs generalizing s with
  | nil => exact h
  | cons x xs ih =>
      by_cases hx : T.accepts s x
      · rw [insertAll_cons_of_accepts hx]
        exact ih (hT.insert_of_not s y x h)
      · rw [insertAll_cons_of_not_accepts hx]
        exact ih h

/-- After a pass none of its records is accepted. -/
theorem not_accepts_after (h : y ∈ xs) : ¬ T.accepts (T.insertAll s xs).state y := by
  induction xs generalizing s with
  | nil => exact absurd h List.not_mem_nil
  | cons x xs ih =>
      by_cases hx : T.accepts s x
      · rw [insertAll_cons_of_accepts hx]
        rcases List.mem_cons.mp h with rfl | hy
        · exact hT.insertAll_of_not (hT.insert_self s y)
        · exact ih hy
      · rw [insertAll_cons_of_not_accepts hx]
        rcases List.mem_cons.mp h with rfl | hy
        · exact hT.insertAll_of_not hx
        · exact ih hy

end Monotone

end Table

end OnePass
