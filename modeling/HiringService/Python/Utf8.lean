import HiringService.Python.Text
import Mathlib.Data.Nat.Notation
import Mathlib.Tactic.SplitIfs

/-!
# Decoding reads exactly the encodings

`bytes.decode()` succeeds on the UTF-8 encodings of texts and on nothing else, and gives the text.
One direction runs the decoder over the encoding of a character; the other reads off the bytes that
the decoder has accepted since it was last between two characters.
-/

namespace Python

/-- `text.encode()`. -/
def encode (text : List Char) : List UInt8 := text.flatMap String.utf8EncodeChar

section Utf8

variable {s s' : Utf8State} {out : List Char} {raw : List UInt8} {b : UInt8}
  {n m m' m'' owed value low high : ℕ}

/-! ## Steps of the decoder -/

/-- The kinds of a byte between two characters. -/
theorem step_between (hb : b.toNat = n) (out : List Char) : (Utf8State.between out).step b =
    if n ≤ 0x7F then some (.between (Char.ofNat n :: out))
    else if 0xC2 ≤ n ∧ n ≤ 0xDF then some ⟨out, 1, n - 0xC0, 0x80, 0xBF⟩
    else if 0xE0 ≤ n ∧ n ≤ 0xEF then
      some ⟨out, 2, n - 0xE0, if n = 0xE0 then 0xA0 else 0x80, if n = 0xED then 0x9F else 0xBF⟩
    else if 0xF0 ≤ n ∧ n ≤ 0xF4 then
      some ⟨out, 3, n - 0xF0, if n = 0xF0 then 0x90 else 0x80, if n = 0xF4 then 0x8F else 0xBF⟩
    else none := by
  subst hb
  rfl

/-- The last continuation byte of a character. -/
theorem step_last (hb : b.toNat = n) :
    (⟨out, 1, value, low, high⟩ : Utf8State).step b = if low ≤ n ∧ n ≤ high then
      some (.between (Char.ofNat (64 * value + (n - 0x80)) :: out)) else none := by
  subst hb
  rfl

/-- A continuation byte that is not the last. -/
theorem step_more (hb : b.toNat = n) :
    (⟨out, owed + 2, value, low, high⟩ : Utf8State).step b = if low ≤ n ∧ n ≤ high then
      some ⟨out, owed + 1, 64 * value + (n - 0x80), 0x80, 0xBF⟩ else none := by
  subst hb
  rfl

theorem foldlM_cons_of_step (h : s.step b = some s') (raw : List UInt8) :
    (b :: raw).foldlM Utf8State.step s = raw.foldlM Utf8State.step s' := by
  rw [List.foldlM_cons, h]
  rfl

theorem toNat_ofNat_of_lt (h : n < 256) : (UInt8.ofNat n).toNat = n := by
  rw [UInt8.toNat_ofNat']
  omega

theorem val_toNat_ofNat (hn : n < 0xD800 ∨ (0xDFFF < n ∧ n < 0x110000)) :
    (Char.ofNat n).val.toNat = n := by
  rw [Char.ofNat, dif_pos hn]
  rfl

/-! ## From the text to the bytes -/

/-- The decoder takes a continuation byte that completes the character. -/
theorem foldlM_last (hlow : low ≤ n % 0x40 + 0x80) (hhigh : n % 0x40 + 0x80 ≤ high)
    (hvalue : 64 * value + n % 0x40 = n) :
    [UInt8.ofNat (n % 0x40 + 0x80)].foldlM Utf8State.step ⟨out, 1, value, low, high⟩ =
      some (.between (Char.ofNat n :: out)) := by
  have hstep : (⟨out, 1, value, low, high⟩ : Utf8State).step _ = _ := step_last
    (toNat_ofNat_of_lt (n := n % 0x40 + 0x80) (by omega))
  rw [if_pos ⟨hlow, hhigh⟩, Nat.add_sub_cancel, hvalue] at hstep
  exact foldlM_cons_of_step hstep []

/-- The decoder takes a continuation byte that does not complete the character. -/
theorem foldlM_more (hlow : low ≤ n % 0x40 + 0x80) (hhigh : n % 0x40 + 0x80 ≤ high)
    (raw : List UInt8) : (UInt8.ofNat (n % 0x40 + 0x80) :: raw).foldlM Utf8State.step
        ⟨out, owed + 2, value, low, high⟩ =
      raw.foldlM Utf8State.step ⟨out, owed + 1, 64 * value + n % 0x40, 0x80, 0xBF⟩ := by
  have hstep : (⟨out, owed + 2, value, low, high⟩ : Utf8State).step _ = _ := step_more
    (toNat_ofNat_of_lt (n := n % 0x40 + 0x80) (by omega))
  rw [if_pos ⟨hlow, hhigh⟩, Nat.add_sub_cancel] at hstep
  exact foldlM_cons_of_step hstep raw

/-- The decoder reads the encoding of a character as the character. -/
theorem foldlM_encodeChar (out : List Char) (c : Char) :
    (String.utf8EncodeChar c).foldlM Utf8State.step (.between out) = some (.between (c :: out)) := by
  have hc : Char.ofNat c.val.toNat = c := Char.ofNat_toNat c
  have hvalid : c.val.toNat < 0xD800 ∨ (0xDFFF < c.val.toNat ∧ c.val.toNat < 0x110000) := c.valid
  rw [String.utf8EncodeChar]
  generalize c.val.toNat = v at *
  subst hc
  split_ifs with h1 h2 h3
  · have hlead := step_between (toNat_ofNat_of_lt (n := v) (by omega)) out
    rw [if_pos h1] at hlead
    exact foldlM_cons_of_step hlead []
  · have hlead := step_between (toNat_ofNat_of_lt (n := v / 64 % 0x20 + 0xc0) (by omega)) out
    rw [if_neg (by omega), if_pos (by omega)] at hlead
    rw [foldlM_cons_of_step hlead]
    exact foldlM_last (by omega) (by omega) (by omega)
  · have hlead := step_between (toNat_ofNat_of_lt (n := v / 4096 % 0x10 + 0xe0) (by omega)) out
    rw [if_neg (by omega), if_neg (by omega), if_pos (by omega)] at hlead
    rw [foldlM_cons_of_step hlead, foldlM_more (by split_ifs <;> omega) (by split_ifs <;> omega)]
    exact foldlM_last (by omega) (by omega) (by omega)
  · have hlead := step_between (toNat_ofNat_of_lt (n := v / 262144 % 0x08 + 0xf0) (by omega)) out
    rw [if_neg (by omega), if_neg (by omega), if_neg (by omega), if_pos (by omega)] at hlead
    rw [foldlM_cons_of_step hlead, foldlM_more (by split_ifs <;> omega) (by split_ifs <;> omega),
      foldlM_more (by omega) (by omega)]
    exact foldlM_last (by omega) (by omega) (by omega)

theorem foldlM_encode (out text : List Char) :
    (encode text).foldlM Utf8State.step (.between out) = some (.between (text.reverse ++ out)) := by
  induction text generalizing out with
  | nil => rfl
  | cons c text ih =>
      rw [encode, List.flatMap_cons, List.foldlM_append, foldlM_encodeChar, Option.bind_eq_bind,
        Option.bind_some, ← encode, ih, List.reverse_cons, List.append_assoc]
      rfl

/-! ## From the bytes to the text -/

theorem encodeChar_one (hn : n ≤ 0x7F) : String.utf8EncodeChar (Char.ofNat n) = [UInt8.ofNat n] := by
  rw [String.utf8EncodeChar, val_toNat_ofNat (by omega), if_pos hn]

theorem encodeChar_two (hn : 0xC2 ≤ n ∧ n ≤ 0xDF) (hm : 0x80 ≤ m ∧ m ≤ 0xBF) :
    String.utf8EncodeChar (Char.ofNat (64 * (n - 0xC0) + (m - 0x80))) =
      [UInt8.ofNat n, UInt8.ofNat m] := by
  generalize hv : 64 * (n - 0xC0) + (m - 0x80) = v
  rw [String.utf8EncodeChar, val_toNat_ofNat (by omega), if_neg (by omega), if_pos (by omega),
    show v / 64 % 0x20 + 0xc0 = n by omega, show v % 0x40 + 0x80 = m by omega]

/-- The range of the second byte excludes overlong forms and surrogates. -/
theorem encodeChar_three (hn : 0xE0 ≤ n ∧ n ≤ 0xEF) (hm : 0x80 ≤ m ∧ m ≤ 0xBF)
    (hfirst : n = 0xE0 → 0xA0 ≤ m) (hlast : n = 0xED → m ≤ 0x9F) (hm' : 0x80 ≤ m' ∧ m' ≤ 0xBF) :
    String.utf8EncodeChar (Char.ofNat (64 * (64 * (n - 0xE0) + (m - 0x80)) + (m' - 0x80))) =
      [UInt8.ofNat n, UInt8.ofNat m, UInt8.ofNat m'] := by
  generalize hv : 64 * (64 * (n - 0xE0) + (m - 0x80)) + (m' - 0x80) = v
  rw [String.utf8EncodeChar, val_toNat_ofNat (by omega), if_neg (by omega), if_neg (by omega),
    if_pos (by omega), show v / 4096 % 0x10 + 0xe0 = n by omega,
    show v / 64 % 0x40 + 0x80 = m by omega, show v % 0x40 + 0x80 = m' by omega]

/-- The range of the second byte excludes overlong forms and values above 10FFFF. -/
theorem encodeChar_four (hn : 0xF0 ≤ n ∧ n ≤ 0xF4) (hm : 0x80 ≤ m ∧ m ≤ 0xBF)
    (hfirst : n = 0xF0 → 0x90 ≤ m) (hlast : n = 0xF4 → m ≤ 0x8F) (hm' : 0x80 ≤ m' ∧ m' ≤ 0xBF)
    (hm'' : 0x80 ≤ m'' ∧ m'' ≤ 0xBF) :
    String.utf8EncodeChar (Char.ofNat
        (64 * (64 * (64 * (n - 0xF0) + (m - 0x80)) + (m' - 0x80)) + (m'' - 0x80))) =
      [UInt8.ofNat n, UInt8.ofNat m, UInt8.ofNat m', UInt8.ofNat m''] := by
  generalize hv : 64 * (64 * (64 * (n - 0xF0) + (m - 0x80)) + (m' - 0x80)) + (m'' - 0x80) = v
  rw [String.utf8EncodeChar, val_toNat_ofNat (by omega), if_neg (by omega), if_neg (by omega),
    if_neg (by omega), show v / 262144 % 0x08 + 0xf0 = n by omega,
    show v / 4096 % 0x40 + 0x80 = m by omega, show v / 64 % 0x40 + 0x80 = m' by omega,
    show v % 0x40 + 0x80 = m'' by omega]

/-- A decoder that owes bytes takes one, or it ends owing. -/
theorem foldlM_owed (h : raw.foldlM Utf8State.step ⟨out, owed + 1, value, low, high⟩ = some s)
    (howed : s.owed = 0) : ∃ m rest, raw = UInt8.ofNat m :: rest ∧ (low ≤ m ∧ m ≤ high) ∧
      rest.foldlM Utf8State.step (if owed = 0 then
        .between (Char.ofNat (64 * value + (m - 0x80)) :: out)
        else ⟨out, owed, 64 * value + (m - 0x80), 0x80, 0xBF⟩) = some s := by
  cases raw with
  | nil =>
      cases h
      cases howed
  | cons b rest =>
      refine ⟨b.toNat, rest, by rw [UInt8.ofNat_toNat], ?_⟩
      rw [List.foldlM_cons] at h
      by_cases hrange : low ≤ b.toNat ∧ b.toNat ≤ high
      · refine ⟨hrange, ?_⟩
        rcases owed with _ | owed
        · rwa [step_last rfl, if_pos hrange] at h
        · rwa [step_more rfl, if_pos hrange] at h
      · rcases owed with _ | owed
        · rw [step_last rfl, if_neg hrange] at h
          cases h
        · rw [step_more rfl, if_neg hrange] at h
          cases h

/-- What the decoder reads up to the next place between two characters is the encoding of one. -/
theorem exists_encodeChar (h : (b :: raw).foldlM Utf8State.step (.between out) = some s)
    (howed : s.owed = 0) : ∃ c rest, b :: raw = String.utf8EncodeChar c ++ rest ∧
      rest.foldlM Utf8State.step (.between (c :: out)) = some s := by
  have hb : b = UInt8.ofNat b.toNat := by rw [UInt8.ofNat_toNat]
  rw [List.foldlM_cons, step_between rfl] at h
  generalize b.toNat = n at *
  subst hb
  -- the first byte says how many follow, and the next one may be restricted further
  by_cases h1 : n ≤ 0x7F
  · rw [if_pos h1] at h
    exact ⟨Char.ofNat n, raw, by rw [encodeChar_one h1]; rfl, h⟩
  by_cases h2 : 0xC2 ≤ n ∧ n ≤ 0xDF
  · rw [if_neg h1, if_pos h2] at h
    obtain ⟨m, rest, rfl, hm, h⟩ := foldlM_owed h howed
    exact ⟨_, rest, by rw [encodeChar_two h2 hm]; rfl, h⟩
  by_cases h3 : 0xE0 ≤ n ∧ n ≤ 0xEF
  · rw [if_neg h1, if_neg h2, if_pos h3] at h
    obtain ⟨m, rest, rfl, hm, h⟩ := foldlM_owed h howed
    obtain ⟨m', rest, rfl, hm', h⟩ := foldlM_owed h howed
    have hrange : (0x80 ≤ m ∧ m ≤ 0xBF) ∧ (n = 0xE0 → 0xA0 ≤ m) ∧ (n = 0xED → m ≤ 0x9F) := by
      split_ifs at hm <;> omega
    exact ⟨_, rest, by rw [encodeChar_three h3 hrange.1 hrange.2.1 hrange.2.2 hm']; rfl, h⟩
  by_cases h4 : 0xF0 ≤ n ∧ n ≤ 0xF4
  · rw [if_neg h1, if_neg h2, if_neg h3, if_pos h4] at h
    obtain ⟨m, rest, rfl, hm, h⟩ := foldlM_owed h howed
    obtain ⟨m', rest, rfl, hm', h⟩ := foldlM_owed h howed
    obtain ⟨m'', rest, rfl, hm'', h⟩ := foldlM_owed h howed
    have hrange : (0x80 ≤ m ∧ m ≤ 0xBF) ∧ (n = 0xF0 → 0x90 ≤ m) ∧ (n = 0xF4 → m ≤ 0x8F) := by
      split_ifs at hm <;> omega
    exact ⟨_, rest, by rw [encodeChar_four h4 hrange.1 hrange.2.1 hrange.2.2 hm' hm'']; rfl, h⟩
  · rw [if_neg h1, if_neg h2, if_neg h3, if_neg h4] at h
    cases h

/-- What the decoder accepts is the encoding of what it reads; `n` bounds the number of bytes. -/
theorem exists_encode (hlength : raw.length ≤ n)
    (h : raw.foldlM Utf8State.step (.between out) = some s) (howed : s.owed = 0) :
    ∃ text, raw = encode text ∧ s.out = text.reverse ++ out := by
  induction n generalizing raw out with
  | zero =>
      obtain rfl := List.length_eq_zero_iff.mp (Nat.le_zero.mp hlength)
      cases h
      exact ⟨[], rfl, rfl⟩
  | succ n ih =>
      rcases raw with _ | ⟨b, rest⟩
      · cases h
        exact ⟨[], rfl, rfl⟩
      obtain ⟨c, rest', hrest, hnext⟩ := exists_encodeChar h howed
      have hshorter : rest'.length ≤ n := by
        have hpos : 0 < (String.utf8EncodeChar c).length :=
          List.length_pos_iff.mpr String.utf8EncodeChar_ne_nil
        have htotal := congrArg List.length hrest
        rw [List.length_append] at htotal
        omega
      obtain ⟨text, rfl, hout⟩ := ih hshorter hnext
      refine ⟨c :: text, ?_, ?_⟩
      · rw [hrest, encode, encode, List.flatMap_cons]
      · rw [hout, List.reverse_cons, List.append_assoc]
        rfl

/-- Decoding reads exactly the encodings. -/
theorem decode_eq_some_iff {text : List Char} : decode raw = some text ↔ raw = encode text := by
  rw [decode]
  constructor
  · intro h
    obtain ⟨s, hs, hend⟩ := Option.bind_eq_some_iff.mp h
    by_cases howed : s.owed = 0
    · obtain ⟨text', hraw, hout⟩ := exists_encode (Nat.le_refl _) hs howed
      rw [if_pos howed, hout, List.append_nil, List.reverse_reverse, Option.some_inj] at hend
      rw [hraw, hend]
    · rw [if_neg howed] at hend
      cases hend
  · rintro rfl
    rw [foldlM_encode, Option.bind_eq_bind, Option.bind_some, List.append_nil]
    show some text.reverse.reverse = some text
    rw [List.reverse_reverse]

end Utf8

end Python
