import HiringService.Python.Text
import Mathlib

/-!
# Decimal numerals

`int(str(n))` is `n` again, for a number that has at most 4300 digits.
-/

namespace Python

section Digits

variable {c : Char} {text : List Char}

theorem toNat_of_isDigit (h : c.isDigit) : 48 ≤ c.toNat ∧ c.toNat ≤ 57 :=
  Char.isDigit_iff_toNat.mp h

/-- The value of an ASCII digit. -/
theorem digitValue_of_isDigit (h : c.isDigit) : digitValue c = some (c.toNat - 48) := by
  have hrange := toNat_of_isDigit h
  have hfirst : 0x30 ≤ c.toNat ∧ c.toNat < 0x30 + 10 := by omega
  rw [digitValue, decimalZeros, List.find?_cons_of_pos (by simpa using hfirst)]
  rfl

theorem isSpace_of_isDigit (h : c.isDigit) (ascii : Bool) : isSpace ascii c = false := by
  have hrange := toNat_of_isDigit h
  simp only [isSpace, List.mem_cons, List.not_mem_nil, or_false, Bool.or_eq_false_iff,
    Bool.and_eq_false_iff, decide_eq_false_iff_not]
  exact ⟨by omega, Or.inr (by omega)⟩

/-- Nothing to strip at the start of a numeral. -/
theorem dropWhile_isSpace (h : ∀ c ∈ text, c.isDigit ∨ c = '-') (ascii : Bool) :
    text.dropWhile (isSpace ascii) = text := by
  rcases text with _ | ⟨c, text⟩
  · rfl
  · have hc : isSpace ascii c = false := by
      rcases h c List.mem_cons_self with hdigit | rfl
      · exact isSpace_of_isDigit hdigit ascii
      · cases ascii <;> rfl
    exact List.dropWhile_cons_of_neg (by simp [hc])

/-- The digits of a numeral without underscores. -/
theorem numeralDigits_of_isDigit (hne : text ≠ []) (h : ∀ c ∈ text, c.isDigit) :
    numeralDigits text = some (text.map fun c => c.toNat - 48) := by
  fun_induction numeralDigits text with
  | case1 => exact absurd rfl hne
  | case2 c => rw [digitValue_of_isDigit (h c (by simp))]; rfl
  | case3 c rest ih =>
      have hunderscore := h '_' (by simp)
      cases hunderscore
  | case4 c rest hrest _ ih =>
      rw [digitValue_of_isDigit (h c (by simp)),
        ih (fun h => hrest h) fun d hd => h d (List.mem_cons_of_mem c hd)]
      rfl

end Digits

theorem isDigit_of_mem_repr {n : ℕ} {c : Char} (h : c ∈ n.repr.toList) : c.isDigit := by
  rw [Nat.toList_repr] at h
  exact Nat.isDigit_of_mem_toDigits (by decide) (by decide) h

theorem length_repr_le_iff {n k : ℕ} (hk : 0 < k) : n.repr.length ≤ k ↔ n < 10 ^ k := by
  rw [← String.length_toList, Nat.toList_repr, Nat.length_toDigits_le_iff (by decide) hk]

/-- The number that the numeral of `n` stands for. -/
theorem parseNumeral_repr {n : ℕ} (hn : n.repr.length ≤ maxStrDigits) :
    parseNumeral n.repr.toList = some n := by
  have hne : n.repr.toList ≠ [] := by simp
  have hvalue : (n.repr.toList.map fun c => c.toNat - 48).foldl (fun n d => 10 * n + d) 0 = n := by
    rw [List.foldl_map, Nat.toList_repr]
    exact Nat.ofDigitChars_ten_toDigits
  rw [parseNumeral, numeralDigits_of_isDigit hne fun _ => isDigit_of_mem_repr]
  show (if _ then _ else _) = _
  rw [if_pos (by rwa [List.length_map, String.length_toList]), hvalue]

/-- A numeral has nothing to strip. -/
theorem strip_eq {text : List Char} (h : ∀ c ∈ text, c.isDigit ∨ c = '-') (ascii : Bool) :
    ((text.dropWhile (isSpace ascii)).reverse.dropWhile (isSpace ascii)).reverse = text := by
  have hreverse : ∀ c ∈ text.reverse, c.isDigit ∨ c = '-' := fun c hc =>
    h c (List.mem_reverse.mp hc)
  rw [dropWhile_isSpace h, dropWhile_isSpace hreverse, List.reverse_reverse]

/-- `int` reads what `str` writes. -/
theorem int_repr {n : ℕ} (hn : n.repr.length ≤ maxStrDigits) : int n.repr = some (n : ℤ) := by
  have hdigits : ∀ c ∈ n.repr.toList, c.isDigit := fun _ => isDigit_of_mem_repr
  rw [int]
  simp only [strip_eq fun c hc => .inl (hdigits c hc)]
  -- a numeral has no sign
  split
  next digits heq =>
    have hsign := hdigits '-' (by rw [heq]; simp)
    cases hsign
  next digits heq =>
    have hsign := hdigits '+' (by rw [heq]; simp)
    cases hsign
  next => rw [parseNumeral_repr hn]; rfl

/-- `int` reads what `str` writes, also below zero. -/
theorem int_toString {z : ℤ} (hz : z.natAbs < 10 ^ maxStrDigits) : int (toString z) = some z := by
  rw [← length_repr_le_iff (by decide)] at hz
  cases z with
  | ofNat n => exact int_repr hz
  | negSucc n =>
      have hchars : (toString (Int.negSucc n)).toList = '-' :: (n + 1).repr.toList := by
        show ("-" ++ (n + 1).repr).toList = _
        rw [String.toList_append]
        rfl
      have hsigned : ∀ c ∈ (toString (Int.negSucc n)).toList, c.isDigit ∨ c = '-' := by
        rw [hchars]
        exact List.forall_mem_cons.mpr ⟨.inr rfl, fun c hc => .inl (isDigit_of_mem_repr hc)⟩
      rw [int]
      simp only [strip_eq hsigned]
      rw [hchars]
      simp only [parseNumeral_repr (n := n + 1) hz]
      rfl

theorem digitValue_lt {c : Char} {d : ℕ} (h : digitValue c = some d) : d < 10 := by
  obtain ⟨first, hfirst, rfl⟩ := Option.map_eq_some_iff.mp h
  have hrange : first ≤ c.toNat ∧ c.toNat < first + 10 := by simpa using List.find?_some hfirst
  omega

theorem numeralDigits_lt {text : List Char} {ds : List ℕ} (h : numeralDigits text = some ds) :
    ∀ d ∈ ds, d < 10 := by
  fun_induction numeralDigits text generalizing ds with
  | case1 => cases h
  | case2 c =>
      obtain ⟨d, hd, rfl⟩ := Option.map_eq_some_iff.mp h
      exact List.forall_mem_singleton.mpr (digitValue_lt hd)
  | case3 c rest ih | case4 c rest _ _ ih =>
      obtain ⟨d, hd, h⟩ := Option.bind_eq_some_iff.mp h
      obtain ⟨ds, hds, h⟩ := Option.bind_eq_some_iff.mp h
      cases h
      exact List.forall_mem_cons.mpr ⟨digitValue_lt hd, ih hds⟩

/-- A numeral is below the power of ten with as many zeros as it has digits. -/
theorem foldl_digits_lt {ds : List ℕ} (h : ∀ d ∈ ds, d < 10) (n : ℕ) :
    ds.foldl (fun n d => 10 * n + d) n < (n + 1) * 10 ^ ds.length := by
  induction ds generalizing n with
  | nil => simp
  | cons d ds ih =>
      obtain ⟨hd, hds⟩ := List.forall_mem_cons.mp h
      have hle : (10 * n + d + 1) * 10 ^ ds.length ≤ (n + 1) * 10 * 10 ^ ds.length :=
        Nat.mul_le_mul_right _ (by omega)
      calc ds.foldl (fun n d => 10 * n + d) (10 * n + d)
          < (10 * n + d + 1) * 10 ^ ds.length := ih hds _
        _ ≤ (n + 1) * 10 * 10 ^ ds.length := hle
        _ = (n + 1) * 10 ^ (ds.length + 1) := by rw [Nat.mul_assoc, Nat.pow_succ']

theorem parseNumeral_lt {text : List Char} {n : ℕ} (h : parseNumeral text = some n) :
    n < 10 ^ maxStrDigits := by
  obtain ⟨ds, hds, h⟩ := Option.bind_eq_some_iff.mp h
  split_ifs at h with hlength
  cases h
  have hlt := foldl_digits_lt (numeralDigits_lt hds) 0
  rw [Nat.zero_add, Nat.one_mul] at hlt
  exact Nat.lt_of_lt_of_le hlt (Nat.pow_le_pow_right (by decide) hlength)

/-- `int` returns no number with more digits than it reads. -/
theorem int_natAbs_lt {text : String} {z : ℤ} (h : int text = some z) :
    z.natAbs < 10 ^ maxStrDigits := by
  rw [int] at h
  split at h
  all_goals
    obtain ⟨z, hz, rfl⟩ := Option.map_eq_some_iff.mp h
    obtain ⟨n, hn, hz⟩ := Option.bind_eq_some_iff.mp hz
    cases hz
    simpa using parseNumeral_lt hn

/-- Only a minus sign makes a number negative. -/
theorem int_nonneg {text : String} {z : ℤ} (htext : '-' ∉ text.toList) (h : int text = some z) :
    0 ≤ z := by
  have hunsigned : ∀ parsed : Option ℕ,
      (Option.map (fun n : ℤ => n) do return ((← parsed : ℕ) : ℤ)) = some z → 0 ≤ z := by
    rintro (_ | n) hz
    · cases hz
    · cases hz
      exact Int.natCast_nonneg n
  rw [int] at h
  split at h
  next digits heq =>
    refine absurd ?_ htext
    have hmem : '-' ∈ '-' :: digits := List.mem_cons_self
    rw [← heq, List.mem_reverse] at hmem
    have hmem' := List.dropWhile_sublist _ |>.subset hmem
    exact (List.dropWhile_sublist _).subset (List.mem_reverse.mp hmem')
  next digits heq => exact hunsigned _ h
  next => exact hunsigned _ h

end Python
