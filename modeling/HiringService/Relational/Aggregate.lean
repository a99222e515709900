import Mathlib.Algebra.BigOperators.Group.List.Lemmas
import Mathlib.Algebra.BigOperators.Ring.List
import Mathlib.Algebra.Group.Action.Defs
import Mathlib.Algebra.Order.BigOperators.Group.List
import Mathlib.Data.List.Nodup
import Mathlib.Algebra.Order.Field.Basic
import Mathlib.Data.Rat.Cast.Order

/-!
# Joins, groups and means

The relational algebra of queries on lists of rows: an inner join with a table whose key is unique,
the sizes of the groups of a `GROUP BY`, and which of some numbers lie above their mean.
-/

namespace Relational

/-! ## Joins -/

section Join

variable {α β γ κ : Type} [DecidableEq κ] {key : α → κ} {rows : List α}

/-- Under a unique key there is one row. -/
theorem filter_key_eq (hkeys : (rows.map key).Nodup) {row : α} (hrow : row ∈ rows) :
    (rows.filter fun r => key row = key r) = [row] := by
  induction rows with
  | nil => cases hrow
  | cons r rest ih =>
      rw [List.map_cons, List.nodup_cons] at hkeys
      obtain ⟨hnot, hrest⟩ := hkeys
      rcases List.mem_cons.mp hrow with rfl | hmem
      · have hnil : (rest.filter fun r => key row = key r) = [] := by
          refine List.filter_eq_nil_iff.mpr fun r hr heq => ?_
          exact hnot (List.mem_map.mpr ⟨r, hr, (of_decide_eq_true heq).symm⟩)
        rw [List.filter_cons_of_pos (by simp), hnil]
      · have hne : key row ≠ key r := fun heq => hnot (List.mem_map.mpr ⟨row, hmem, heq⟩)
        rw [List.filter_cons_of_neg (by simpa using hne), ih hrest hmem]

variable {left : List β} {ref : β → κ} {pick : β → α}

/-- An inner join with a table that has one row for every row on the left. -/
theorem join_flatMap (hkeys : (rows.map key).Nodup)
    (hpick : ∀ b ∈ left, pick b ∈ rows ∧ key (pick b) = ref b) (f : β → α → List γ) :
    (left.flatMap fun b => (rows.filter fun r => ref b = key r).flatMap (f b)) =
      left.flatMap fun b => f b (pick b) := by
  refine List.flatMap_congr fun b hb => ?_
  obtain ⟨hmem, href⟩ := hpick b hb
  rw [← href, filter_key_eq hkeys hmem, List.flatMap_singleton]

/-- Such a join neither drops nor repeats a row. -/
theorem join_map (hkeys : (rows.map key).Nodup)
    (hpick : ∀ b ∈ left, pick b ∈ rows ∧ key (pick b) = ref b) (f : β → α → γ) :
    (left.flatMap fun b => (rows.filter fun r => ref b = key r).map (f b)) =
      left.map fun b => f b (pick b) := by
  simp only [List.map_eq_flatMap]
  exact join_flatMap hkeys hpick fun b r => [f b r]

end Join

/-! ## Groups -/

section Group

variable {α κ : Type} [DecidableEq κ] (group : α → κ) (rows : List α)

/-- The size of a group. -/
theorem count_map_eq_length [BEq κ] [LawfulBEq κ] (k : κ) :
    (rows.map group).count k = (rows.filter fun r => group r = k).length := by
  rw [List.count_eq_countP, List.countP_map, List.countP_eq_length_filter]
  refine congrArg List.length (List.filter_congr fun r _ => ?_)
  rw [Function.comp_apply, Bool.eq_iff_iff, beq_iff_eq, decide_eq_true_eq]

/-- The groups that satisfy a condition together have the rows whose groups satisfy it. -/
theorem sum_filter_groups (p : κ → Bool) :
    ((((rows.map group).dedup.filter p).map fun k =>
      (rows.filter fun r => group r = k).length)).sum = (rows.filter fun r => p (group r)).length := by
  have hsum := List.sum_map_count_dedup_filter_eq_countP p (rows.map group)
  simp only [count_map_eq_length] at hsum
  rw [hsum, List.countP_map, List.countP_eq_length_filter]
  rfl

/-- Every row is in one group. -/
theorem sum_groups : (((rows.map group).dedup.map fun k =>
    (rows.filter fun r => group r = k).length)).sum = rows.length := by
  have hsum := List.sum_map_count_dedup_eq_length (rows.map group)
  simp only [count_map_eq_length, List.length_map] at hsum
  exact hsum

/-- No group is empty. -/
theorem group_pos {k : κ} (hk : k ∈ (rows.map group).dedup) :
    0 < (rows.filter fun r => group r = k).length := by
  rw [← count_map_eq_length]
  exact List.count_pos_iff.mpr (List.mem_dedup.mp hk)

end Group

/-! ## Parts -/

section Part

variable {α π : Type} {parts : List π} {holds : π → α → Bool} {rows : List α}

/-- Counting is adding ones. -/
theorem sum_ones (p : π → Bool) :
    (parts.map fun part => if p part then 1 else 0).sum = parts.countP p := by
  induction parts with
  | nil => rfl
  | cons part rest ih =>
      rw [List.map_cons, List.sum_cons, ih, List.countP_cons, Nat.add_comm]

/-- If every row is in exactly one part, the parts together have all the rows. -/
theorem sum_parts (hone : ∀ r ∈ rows, (parts.countP fun p => holds p r) = 1) :
    (parts.map fun p => (rows.filter (holds p)).length).sum = rows.length := by
  induction rows with
  | nil => simp
  | cons r rest ih =>
      -- the first row adds one to the part that it is in
      have hadd : (parts.map fun p => ((r :: rest).filter (holds p)).length) =
          parts.map fun p => (if holds p r then 1 else 0) + (rest.filter (holds p)).length := by
        refine List.map_congr_left fun p _ => ?_
        by_cases hp : holds p r
        · rw [List.filter_cons_of_pos hp, List.length_cons, if_pos hp, Nat.add_comm]
        · rw [List.filter_cons_of_neg hp, if_neg hp, Nat.zero_add]
      have hhead : (parts.map fun p => if holds p r then 1 else 0).sum = 1 :=
        (sum_ones fun p => holds p r).trans (hone r List.mem_cons_self)
      rw [hadd, List.sum_map_add, hhead, ih fun r' hr' => hone r' (List.mem_cons_of_mem _ hr'),
        List.length_cons, Nat.add_comm]

/-- Positive numbers add up to one of them only if there is no other. -/
theorem sum_eq_self_iff [DecidableEq α] {f : α → ℕ} {a : α} (hnodup : rows.Nodup) (ha : a ∈ rows)
    (hpos : ∀ r ∈ rows, 0 < f r) : (rows.map f).sum = f a ↔ ∀ r ∈ rows, r = a := by
  have hsum : (rows.map f).sum = f a + ((rows.erase a).map f).sum :=
    ((List.perm_cons_erase ha).map f).sum_eq
  constructor
  · intro heq r hr
    by_contra hne
    have hmem : r ∈ rows.erase a := (List.mem_erase_of_ne hne).mpr hr
    have hle := List.single_le_sum (fun n _ => Nat.zero_le n) (f r) (List.mem_map.mpr ⟨r, hmem, rfl⟩)
    have hr := hpos r hr
    omega
  · intro hall
    have hnil : rows.erase a = [] := by
      refine List.eq_nil_iff_forall_not_mem.mpr fun r hr => ?_
      exact (hnodup.mem_erase_iff.mp hr).1 (hall r (List.mem_of_mem_erase hr))
    rw [hsum, hnil, List.map_nil, List.sum_nil, Nat.add_zero]

end Part

/-! ## Means -/

section Mean

variable {ns : List ℕ}

/-- A number is above the mean if it exceeds the sum when it is taken as often as there are
numbers. -/
theorem mean_lt_iff (hne : ns ≠ []) (n : ℕ) :
    (ns.sum : ℚ) / (ns.length : ℚ) < (n : ℚ) ↔ ns.sum < n * ns.length := by
  have hpos : (0 : ℚ) < (ns.length : ℚ) := by
    exact_mod_cast List.length_pos_iff.mpr hne
  rw [div_lt_iff₀ hpos]
  exact_mod_cast Iff.rfl

/-- Taking the mean as often as there are numbers gives their sum. -/
theorem sum_mul_length (ns : List ℕ) :
    (ns.map fun n => n * ns.length).sum = (ns.map fun _ => ns.sum).sum := by
  rw [List.sum_map_mul_right, List.map_id', List.map_const', List.sum_replicate, smul_eq_mul,
    Nat.mul_comm]

/-- If no number is above the mean, all of them are the mean. -/
theorem mul_length_eq_sum (h : ∀ n ∈ ns, n * ns.length ≤ ns.sum) {n : ℕ} (hn : n ∈ ns) :
    n * ns.length = ns.sum := by
  by_contra hne
  have hlt : n * ns.length < ns.sum := Nat.lt_of_le_of_ne (h n hn) hne
  have htotal := List.sum_lt_sum (fun m => m * ns.length) (fun _ => ns.sum) h ⟨n, hn, hlt⟩
  rw [sum_mul_length] at htotal
  exact Nat.lt_irrefl _ htotal

/-- No number is above the mean exactly when all are equal. -/
theorem none_above_mean_iff :
    (∀ n ∈ ns, n * ns.length ≤ ns.sum) ↔ ∀ n ∈ ns, ∀ m ∈ ns, n = m := by
  constructor
  · intro h n hn m hm
    have hpos : 0 < ns.length := List.length_pos_of_mem hn
    refine Nat.eq_of_mul_eq_mul_right hpos ?_
    rw [mul_length_eq_sum h hn, mul_length_eq_sum h hm]
  · intro h n hn
    have hsum : ns.sum = ns.length * n := by
      rw [List.sum_eq_card_nsmul ns n fun m hm => h m hm n hn, smul_eq_mul]
    rw [hsum, Nat.mul_comm]

/-- Some number is not above the mean. -/
theorem exists_not_above_mean (hne : ns ≠ []) : ∃ n ∈ ns, n * ns.length ≤ ns.sum := by
  by_contra hall
  have hall' : ∀ n ∈ ns, ns.sum < n * ns.length := by
    intro n hn
    by_contra hle
    exact hall ⟨n, hn, Nat.le_of_not_lt hle⟩
  obtain ⟨n, hn⟩ := List.exists_mem_of_ne_nil ns hne
  have htotal := List.sum_lt_sum (fun _ => ns.sum) (fun m => m * ns.length)
    (fun m hm => Nat.le_of_lt (hall' m hm)) ⟨n, hn, hall' n hn⟩
  rw [sum_mul_length] at htotal
  exact Nat.lt_irrefl _ htotal

end Mean

end Relational
