import HiringService.Python.Json
import Mathlib.Data.List.Nodup
import Mathlib.Tactic.IntervalCases

/-!
# What `json.dumps` writes, `json.loads` reads

A value without floats, whose objects have no key twice and whose integers are short enough for
`str`, is written and read back unchanged (`loads_of_dumps`).
-/

namespace Python.Json

/-! ## Strings -/

/-- The code units of a character. -/
def codeUnits (c : Char) : List ℕ :=
  if c.toNat < 0x10000 then [c.toNat]
  else [0xD800 + (c.toNat - 0x10000) / 0x400, 0xDC00 + (c.toNat - 0x10000) % 0x400]

theorem hexValue_digitChar {d : ℕ} (hd : d < 16) : hexValue (Nat.digitChar d) = some d := by
  interval_cases d <;> rfl

/-- A code unit behind `\u`. -/
theorem scanUnits_unit {a b c d : Char} {unit : ℕ} (hunit : hexUnit a b c d = some unit)
    (text : List Char) : scanUnits ('\\' :: 'u' :: a :: b :: c :: d :: text) =
      (scanUnits text).map fun r => (unit :: r.1, r.2) := by
  rw [scanUnits, if_neg (by decide), if_pos rfl, hunit]
  rcases scanUnits text with _ | r
  · rfl
  · rfl

/-- An escape of two characters. -/
theorem scanUnits_shortEscape {e c : Char} (he : e ≠ 'u') (hescape : shortEscape e = some c)
    (text : List Char) : scanUnits ('\\' :: e :: text) =
      (scanUnits text).map fun r => (c.toNat :: r.1, r.2) := by
  rw [scanUnits.eq_def]
  dsimp only
  rw [if_neg (by decide), if_pos rfl]
  split
  · rename_i heq
    exact absurd (List.cons.inj heq).1 he
  · rename_i heq
    obtain ⟨rfl, rfl⟩ := List.cons.inj heq
    rw [hescape]
    rcases scanUnits text with _ | r
    · rfl
    · rfl
  · rename_i heq
    cases heq

/-- A character that stands for itself. -/
theorem scanUnits_plain {c : Char} (hquote : c ≠ '"') (hbackslash : c ≠ '\\') (hc : 0x20 ≤ c.toNat)
    (text : List Char) : scanUnits (c :: text) =
      (scanUnits text).map fun r => (c.toNat :: r.1, r.2) := by
  rw [scanUnits.eq_def]
  dsimp only
  rw [if_neg hquote, if_neg hbackslash, if_neg (by omega)]
  rcases scanUnits text with _ | r
  · rfl
  · rfl

/-- An escaped code unit. -/
theorem scanUnits_unicodeEscape {unit : ℕ} (hunit : unit < 0x10000) (text : List Char) :
    scanUnits (unicodeEscape unit ++ text) = (scanUnits text).map fun r => (unit :: r.1, r.2) := by
  have hvalue : 16 * (16 * (16 * (unit / 4096) + unit / 256 % 16) + unit / 16 % 16) + unit % 16 =
      unit := by
    omega
  have hhex : hexUnit (Nat.digitChar (unit / 4096)) (Nat.digitChar (unit / 256 % 16))
      (Nat.digitChar (unit / 16 % 16)) (Nat.digitChar (unit % 16)) = some unit := by
    rw [hexUnit, hexValue_digitChar (by omega), hexValue_digitChar (by omega),
      hexValue_digitChar (by omega), hexValue_digitChar (by omega)]
    exact congrArg some hvalue
  exact scanUnits_unit hhex text

/-- The scanner reads a character back as its code units. -/
theorem scanUnits_escapeChar (c : Char) (text : List Char) : scanUnits (escapeChar c ++ text) =
    (scanUnits text).map fun r => (codeUnits c ++ r.1, r.2) := by
  have hvalid : c.toNat < 0xD800 ∨ (0xDFFF < c.toNat ∧ c.toNat < 0x110000) := c.valid
  rw [escapeChar]
  split
  · -- one of the escapes of two characters
    rename_i e hfind
    have hmem := List.mem_of_find?_eq_some hfind
    obtain rfl : e.2 = c := by simpa using List.find?_some hfind
    have hknown : ∀ e ∈ shortEscapes, e.1 ≠ 'u' ∧ shortEscape e.1 = some e.2 ∧
        codeUnits e.2 = [e.2.toNat] := by
      decide
    obtain ⟨hu, hescape, hunits⟩ := hknown e hmem
    rw [hunits]
    exact scanUnits_shortEscape hu hescape text
  · rename_i hnone
    have hothers : ∀ e ∈ shortEscapes, e.2 ≠ c := by simpa using hnone
    dsimp only
    split_ifs with hascii hbmp
    · have hunits : codeUnits c = [c.toNat] := if_pos (by omega)
      rw [hunits]
      exact scanUnits_plain (hothers ('"', '"') (by decide)).symm
        (hothers ('\\', '\\') (by decide)).symm hascii.1 text
    · have hunits : codeUnits c = [c.toNat] := if_pos hbmp
      rw [hunits]
      exact scanUnits_unicodeEscape hbmp text
    · have hunits : codeUnits c = [_, _] := if_neg hbmp
      rw [hunits, List.append_assoc, scanUnits_unicodeEscape (by omega),
        scanUnits_unicodeEscape (by omega), Option.map_map]
      rfl

theorem joinUnits_codeUnits (c : Char) (units : List ℕ) :
    joinUnits (codeUnits c ++ units) = (joinUnits units).map (c :: ·) := by
  have hvalid : c.toNat < 0xD800 ∨ (0xDFFF < c.toNat ∧ c.toNat < 0x110000) := c.valid
  rw [codeUnits]
  split_ifs with hbmp
  · rw [List.singleton_append, joinUnits.eq_def]
    dsimp only
    rw [if_neg (by omega), if_neg (by omega), Char.ofNat_toNat]
    exact bind_pure_comp ..
  · have hpoint : 0x10000 + (0xD800 + (c.toNat - 0x10000) / 0x400 - 0xD800) * 0x400 +
        (0xDC00 + (c.toNat - 0x10000) % 0x400 - 0xDC00) = c.toNat := by
      omega
    rw [List.cons_append, List.singleton_append, joinUnits.eq_def]
    dsimp only
    rw [if_pos (by omega), if_pos (by omega), hpoint, Char.ofNat_toNat]
    exact bind_pure_comp ..

theorem joinUnits_flatMap (chars : List Char) : joinUnits (chars.flatMap codeUnits) = some chars := by
  induction chars with
  | nil => rfl
  | cons c chars ih => rw [List.flatMap_cons, joinUnits_codeUnits, ih, Option.map_some]

theorem scanUnits_flatMap (chars rest : List Char) :
    scanUnits (chars.flatMap escapeChar ++ '"' :: rest) = some (chars.flatMap codeUnits, rest) := by
  induction chars with
  | nil =>
      rw [List.flatMap_nil, List.nil_append, scanUnits.eq_def]
      dsimp only
      rw [if_pos rfl]
      rfl
  | cons c chars ih =>
      rw [List.flatMap_cons, List.append_assoc, scanUnits_escapeChar, ih, List.flatMap_cons,
        Option.map_some]

/-- A string literal is read back, up to its closing quote. -/
theorem scanString_stringText (s : String) (rest : List Char) :
    scanString (s.toList.flatMap escapeChar ++ '"' :: rest) = some (s, rest) := by
  rw [scanString, scanUnits_flatMap]
  show (joinUnits (s.toList.flatMap codeUnits)).bind _ = _
  rw [joinUnits_flatMap]
  show some (String.ofList s.toList, rest) = _
  rw [String.ofList_toList]

/-! ## Numbers and constants -/

/-- What may follow a value. -/
def Follows (rest : List Char) : Prop := ∀ c ∈ rest.head?, c = ',' ∨ c = ']' ∨ c = '}'

section Numbers

variable {rest : List Char}

theorem takeWhile_of_follows (h : Follows rest) : rest.takeWhile Char.isDigit = [] := by
  rcases rest with _ | ⟨c, rest⟩
  · rfl
  · rcases h c rfl with rfl | rfl | rfl <;> rfl

theorem fractionPart_of_follows (h : Follows rest) : fractionPart rest = [] := by
  rcases rest with _ | ⟨c, rest⟩
  · rfl
  · rcases h c rfl with rfl | rfl | rfl <;> rfl

theorem exponentPart_of_follows (h : Follows rest) : exponentPart rest = [] := by
  rcases rest with _ | ⟨c, rest⟩
  · rfl
  · rcases h c rfl with rfl | rfl | rfl <;> rfl

/-- A numeral does not begin with a zero, unless it is that of zero. -/
theorem head?_toDigits {n : ℕ} (hn : 0 < n) : (Nat.toDigits 10 n).head? ≠ some '0' := by
  induction n using Nat.strong_induction_on with
  | _ n ih =>
      rw [Nat.toDigits_eq_if (by decide)]
      split_ifs with hlt
      · interval_cases n <;> decide
      · rw [List.head?_append_of_ne_nil _ Nat.toDigits_ne_nil]
        exact ih (n / 10) (by omega) (by omega)

theorem integerPart_toDigits (h : Follows rest) (n : ℕ) :
    integerPart (Nat.toDigits 10 n ++ rest) = Nat.toDigits 10 n := by
  have hdigits : ∀ c ∈ Nat.toDigits 10 n, c.isDigit :=
    fun c hc => Nat.isDigit_of_mem_toDigits (by decide) (by decide) hc
  have hhead : (Nat.toDigits 10 n ++ rest).head? = (Nat.toDigits 10 n).head? :=
    List.head?_append_of_ne_nil _ Nat.toDigits_ne_nil
  rw [integerPart, hhead]
  rcases Nat.eq_zero_or_pos n with rfl | hn
  · rfl
  · rw [if_neg (head?_toDigits hn), List.takeWhile_append_of_pos hdigits, takeWhile_of_follows h,
      List.append_nil]

/-- A numeral with its sign. -/
theorem scanNumber_toDigits (h : Follows rest) {n : ℕ} (hn : n.repr.length ≤ maxStrDigits)
    {sign : List Char} (hsign : sign = [] ∨ sign = ['-']) :
    scanNumber (sign ++ (Nat.toDigits 10 n ++ rest)) =
      some (.int (if sign = [] then n else -n), rest) := by
  have hlength : (Nat.toDigits 10 n).length ≤ maxStrDigits := by
    rwa [← Nat.toList_repr, String.length_toList]
  have hfirst : (if (sign ++ (Nat.toDigits 10 n ++ rest)).head? = some '-' then ['-'] else []) =
      sign := by
    rcases hsign with rfl | rfl
    · refine if_neg fun hhead => ?_
      rw [List.nil_append, List.head?_append_of_ne_nil _ Nat.toDigits_ne_nil] at hhead
      have hdigit := Nat.isDigit_of_mem_toDigits (by decide) (by decide) (List.mem_of_head? hhead)
      cases hdigit
    · rfl
  rw [scanNumber]
  simp only [hfirst, List.drop_left, integerPart_toDigits h, ← List.drop_drop,
    fractionPart_of_follows h, exponentPart_of_follows h, List.length_nil, List.drop_zero,
    if_neg Nat.toDigits_ne_nil, and_self, if_true, if_pos hlength, Nat.ofDigitChars_ten_toDigits]

/-- A numeral is none of the words. -/
theorem scanConstant_toDigits (n : ℕ) {sign : List Char} (hsign : sign = [] ∨ sign = ['-'])
    (rest : List Char) :
    scanConstant (sign ++ (Nat.toDigits 10 n ++ rest)) = none := by
  rcases hdigits : Nat.toDigits 10 n with _ | ⟨c, digits⟩
  · exact absurd hdigits Nat.toDigits_ne_nil
  · have hdigit : c.isDigit := Nat.isDigit_of_mem_toDigits (b := 10) (n := n) (by decide) (by decide)
      (hdigits ▸ List.mem_cons_self)
    have hne : ∀ d : Char, d.isDigit = false → d ≠ c := by
      rintro d hd rfl
      cases hd.symm.trans hdigit
    rw [scanConstant, Option.map_eq_none_iff, List.find?_eq_none]
    rcases hsign with rfl | rfl
    · simp [constants, hne 'n' rfl, hne 't' rfl, hne 'f' rfl, hne 'N' rfl, hne 'I' rfl, hne '-' rfl]
    · simp [constants, hne 'I' rfl]

end Numbers

/-! ## Values -/

mutual

/-- The value can be read back when it has been written: no key is twice in an object, all integers
can be converted, and there are no floats. -/
def lossless : Json → Bool
  | .int n => n.natAbs.repr.length ≤ maxStrDigits
  | .float _ => false
  | .arr items => itemsLossless items
  | .obj fields => (fields.map Prod.fst).Nodup && fieldsLossless fields
  | _ => true

/-- All items of a list can be read back. -/
def itemsLossless : List Json → Bool
  | [] => true
  | item :: items => lossless item && itemsLossless items

/-- All values of an object can be read back. -/
def fieldsLossless : List (String × Json) → Bool
  | [] => true
  | (_, value) :: fields => lossless value && fieldsLossless fields

end

/-- A numeral with its sign begins with a minus or with a digit. -/
theorem intText_eq_cons (n : ℤ) :
    ∃ c rest, intText n = c :: rest ∧ ∀ d : Char, d.isDigit = false → d ≠ '-' → c ≠ d := by
  cases n with
  | ofNat n =>
      rcases hn : Nat.toDigits 10 n with _ | ⟨c, rest⟩
      · exact absurd hn Nat.toDigits_ne_nil
      · have hdigit : c.isDigit := Nat.isDigit_of_mem_toDigits (b := 10) (n := n) (by decide)
          (by decide) (hn ▸ List.mem_cons_self)
        refine ⟨c, rest, hn, ?_⟩
        rintro d hd - rfl
        cases hd.symm.trans hdigit
  | negSucc n => exact ⟨_, _, rfl, fun d _ hminus => hminus.symm⟩

/-- The first character of a value is not whitespace, nor the end of a list, nor the byte order
mark. -/
theorem text_eq_cons {value : Json} (h : value.lossless = true) :
    ∃ c rest, value.text = c :: rest ∧ isSpace c = false ∧ c ≠ ']' ∧ c ≠ '\uFEFF' := by
  cases value with
  | null => exact ⟨_, _, rfl, by decide, by decide, by decide⟩
  | bool b => cases b <;> exact ⟨_, _, rfl, by decide, by decide, by decide⟩
  | int n =>
      obtain ⟨c, rest, htext, hne⟩ := intText_eq_cons n
      refine ⟨c, rest, htext, decide_eq_false ?_, hne ']' rfl (by decide),
        hne '\uFEFF' rfl (by decide)⟩
      simp [hne ' ' rfl (by decide), hne '\t' rfl (by decide), hne '\n' rfl (by decide),
        hne '\r' rfl (by decide)]
  | float literal => cases h
  | str s => exact ⟨_, _, rfl, by decide, by decide, by decide⟩
  | arr items => exact ⟨_, _, rfl, by decide, by decide, by decide⟩
  | obj fields => exact ⟨_, _, rfl, by decide, by decide, by decide⟩

theorem itemsText_cons_cons (item next : Json) (items : List Json) :
    itemsText (item :: next :: items) = item.text ++ ',' :: ' ' :: itemsText (next :: items) :=
  itemsText.eq_3 item (next :: items) (List.cons_ne_nil _ _)

theorem fieldsText_cons_cons (key : String) (value : Json) (next : String × Json)
    (fields : List (String × Json)) : fieldsText ((key, value) :: next :: fields) =
      stringText key ++ ':' :: ' ' :: value.text ++ ',' :: ' ' :: fieldsText (next :: fields) :=
  fieldsText.eq_3 key value (next :: fields) (List.cons_ne_nil _ _)

/-- The fields of an object begin with the quote of a key. -/
theorem fieldsText_eq_cons (key : String) (value : Json) (fields : List (String × Json)) :
    ∃ rest, fieldsText ((key, value) :: fields) = '"' :: rest := by
  rcases fields with _ | ⟨next, fields⟩
  · exact ⟨_, rfl⟩
  · exact ⟨_, fieldsText_cons_cons ..⟩

/-- The first character of the items of a list is that of the first one. -/
theorem itemsText_eq_cons {item : Json} (h : item.lossless = true) (items : List Json) :
    ∃ c rest, itemsText (item :: items) = c :: rest ∧ isSpace c = false ∧ c ≠ ']' := by
  obtain ⟨c, rest, htext, hspace, hend, -⟩ := text_eq_cons h
  cases items with
  | nil => exact ⟨c, rest, htext, hspace, hend⟩
  | cons next items =>
      refine ⟨c, rest ++ ',' :: ' ' :: itemsText (next :: items), ?_, hspace, hend⟩
      rw [itemsText_cons_cons, htext, List.cons_append]

/-- Text that begins with no whitespace. -/
theorem skipSpace_of_head {c : Char} (hc : isSpace c = false) (rest : List Char) :
    skipSpace (c :: rest) = c :: rest :=
  List.dropWhile_cons_of_neg (by rw [hc]; exact Bool.false_ne_true)

/-- The whitespace that `dumps` writes. -/
theorem skipSpace_blank {c : Char} (hc : isSpace c = false) (rest : List Char) :
    skipSpace (' ' :: c :: rest) = c :: rest :=
  (List.dropWhile_cons_of_pos (by decide)).trans (skipSpace_of_head hc rest)

/-- An integer is read back. -/
theorem scanValue_int {n : ℤ} (hn : n.natAbs.repr.length ≤ maxStrDigits) {rest : List Char}
    (hrest : Follows rest) (fuel : ℕ) :
    scanValue (fuel + 1) (intText n ++ rest) = some (.int n, rest) := by
  have hscan : (scanConstant (intText n ++ rest)).or (scanNumber (intText n ++ rest)) =
      some (.int n, rest) := by
    cases n with
    | ofNat n =>
        have hconstant := scanConstant_toDigits n (Or.inl rfl) rest
        have hnumber := scanNumber_toDigits (n := n) hrest hn (Or.inl rfl)
        rw [List.nil_append] at hconstant hnumber
        rw [intText, hconstant, hnumber]
        rfl
    | negSucc n =>
        have hconstant := scanConstant_toDigits (n + 1) (Or.inr rfl) rest
        have hnumber := scanNumber_toDigits (n := n + 1) hrest hn (Or.inr rfl)
        rw [List.singleton_append] at hconstant hnumber
        rw [intText, List.cons_append, hconstant, hnumber]
        rfl
  obtain ⟨c, tail, htext, hne⟩ := intText_eq_cons n
  rw [← hscan, htext, List.cons_append, scanValue, if_neg (hne '"' rfl (by decide)),
    if_neg (hne '[' rfl (by decide)), if_neg (hne '{' rfl (by decide))]

/-- A `dict` is filled in the order of its keys. -/
theorem foldl_setField (fields done : List (String × Json))
    (h : ((done ++ fields).map Prod.fst).Nodup) : fields.foldl setField done = done ++ fields := by
  induction fields generalizing done with
  | nil => rw [List.append_nil, List.foldl_nil]
  | cons field fields ih =>
      rw [List.append_cons] at h ⊢
      have hnew : field.1 ∉ done.map Prod.fst := by
        rw [List.map_append, List.map_append] at h
        have hdone := (List.nodup_append.mp (List.nodup_append.mp h).1).2.2
        exact fun hmem => hdone field.1 hmem field.1 (List.mem_singleton_self _) rfl
      rw [List.foldl_cons, setField, if_neg hnew]
      exact ih _ h

section Rows

variable {fuel : ℕ} {value : Json} {rest more : List Char}

/-- The last item of a list. -/
theorem scanItems_last
    (hvalue : scanValue fuel (value.text ++ ']' :: rest) = some (value, ']' :: rest)) :
    scanItems (fuel + 1) (value.text ++ ']' :: rest) = some ([value], rest) := by
  rw [scanItems, hvalue]
  rfl

/-- An item with others behind it. -/
theorem scanItems_next {items : List Json}
    (hvalue : scanValue fuel (value.text ++ ',' :: ' ' :: more) = some (value, ',' :: ' ' :: more))
    (hmore : skipSpace (' ' :: more) = more) (hitems : scanItems fuel more = some (items, rest)) :
    scanItems (fuel + 1) (value.text ++ ',' :: ' ' :: more) = some (value :: items, rest) := by
  rw [scanItems, hvalue]
  show (scanItems fuel (skipSpace (' ' :: more))).bind _ = _
  rw [hmore, hitems]
  rfl

/-- A field, up to its value. -/
theorem scanFields_key (key : String) (hvalue : value.lossless = true) (text : List Char) :
    scanFields (fuel + 1) (stringText key ++ ':' :: ' ' :: value.text ++ text) =
      (scanValue fuel (value.text ++ text)).bind fun r =>
        match skipSpace r.2 with
        | '}' :: rest => some ([(key, r.1)], rest)
        | ',' :: rest =>
            (scanFields fuel (skipSpace rest)).bind fun r' => some ((key, r.1) :: r'.1, r'.2)
        | _ => none := by
  obtain ⟨c, tail, htext, hspace, -⟩ := text_eq_cons hvalue
  have hkey : stringText key ++ ':' :: ' ' :: value.text ++ text =
      '"' :: (key.toList.flatMap escapeChar ++ '"' :: ':' :: ' ' :: (value.text ++ text)) := by
    simp [stringText]
  have hblank : skipSpace (' ' :: (value.text ++ text)) = value.text ++ text := by
    rw [htext]
    exact skipSpace_blank hspace _
  rw [hkey, scanFields, if_pos rfl, scanString_stringText]
  show (scanValue fuel (skipSpace (' ' :: (value.text ++ text)))).bind _ = _
  rw [hblank]
  rfl

end Rows

mutual

/-- A value is read back in front of what may follow one. -/
theorem scanValue_text : (value : Json) → value.lossless = true → (fuel : ℕ) →
    2 * value.text.length ≤ fuel + 1 → (rest : List Char) → Follows rest →
    scanValue fuel (value.text ++ rest) = some (value, rest)
  -- no text is empty, so there is fuel left
  | value, h, 0, hfuel, rest, hrest => by
      obtain ⟨c, tail, htext, -⟩ := text_eq_cons h
      rw [htext, List.length_cons] at hfuel
      omega
  | .null, h, fuel + 1, hfuel, rest, hrest => rfl
  | .bool true, h, fuel + 1, hfuel, rest, hrest => rfl
  | .bool false, h, fuel + 1, hfuel, rest, hrest => rfl
  | .int n, h, fuel + 1, hfuel, rest, hrest => scanValue_int (of_decide_eq_true h) hrest fuel
  | .float literal, h, fuel + 1, hfuel, rest, hrest => nomatch h
  | .str s, h, fuel + 1, hfuel, rest, hrest => by
      rw [text, stringText, List.append_assoc, List.cons_append, scanValue, if_pos rfl]
      rw [List.singleton_append, scanString_stringText]
      rfl
  | .arr [], h, fuel + 1, hfuel, rest, hrest => rfl
  | .arr (item :: items), h, fuel + 1, hfuel, rest, hrest => by
      have hitem : item.lossless = true := (Bool.and_eq_true_iff.mp h).1
      have hlength : 2 * (itemsText (item :: items)).length ≤ fuel := by
        rw [text, List.length_append, List.length_cons, List.length_singleton] at hfuel
        omega
      -- the bracket costs one unit of fuel, and the items have the rest
      have hscan := scanItems_text item items h fuel hlength rest
      obtain ⟨c, tail, htext, hspace, hend⟩ := itemsText_eq_cons hitem items
      rw [text, List.append_assoc, List.cons_append, scanValue, if_neg (by decide), if_pos rfl]
      rw [List.singleton_append]
      rw [htext, List.cons_append] at hscan ⊢
      rw [skipSpace_of_head hspace, hscan, if_neg]
      · rfl
      · exact fun hhead => hend (Option.some.inj hhead)
  | .obj [], h, fuel + 1, hfuel, rest, hrest => rfl
  | .obj ((key, value) :: fields), h, fuel + 1, hfuel, rest, hrest => by
      -- keys that are there twice would be merged
      obtain ⟨hnodup, hfields⟩ := Bool.and_eq_true_iff.mp h
      have hlength : 2 * (fieldsText ((key, value) :: fields)).length ≤ fuel := by
        rw [text, List.length_append, List.length_cons, List.length_singleton] at hfuel
        omega
      have hscan := scanFields_text key value fields hfields fuel hlength rest
      obtain ⟨tail, htext⟩ := fieldsText_eq_cons key value fields
      rw [text, List.append_assoc, List.cons_append, scanValue, if_neg (by decide),
        if_neg (by decide), if_pos rfl, List.singleton_append]
      rw [htext, List.cons_append] at hscan ⊢
      rw [skipSpace_of_head (by decide), hscan, if_neg, Option.map_some,
        foldl_setField _ [] (of_decide_eq_true hnodup)]
      · rfl
      · exact fun hhead => absurd (Option.some.inj hhead) (by decide)

/-- The items of a list are read back up to its end. -/
theorem scanItems_text : (item : Json) → (items : List Json) →
    itemsLossless (item :: items) = true → (fuel : ℕ) →
    2 * (itemsText (item :: items)).length ≤ fuel → (rest : List Char) →
    scanItems fuel (itemsText (item :: items) ++ ']' :: rest) = some (item :: items, rest)
  | item, items, h, 0, hfuel, rest => by
      obtain ⟨c, tail, htext, -⟩ := itemsText_eq_cons (Bool.and_eq_true_iff.mp h).1 items
      rw [htext, List.length_cons] at hfuel
      omega
  | item, [], h, fuel + 1, hfuel, rest => by
      rw [itemsText] at hfuel ⊢
      exact scanItems_last (scanValue_text item (Bool.and_eq_true_iff.mp h).1 fuel (by omega) _
        (by rintro c ⟨⟩; exact .inr (.inl rfl)))
  | item, next :: items, h, fuel + 1, hfuel, rest => by
      obtain ⟨hitem, hitems⟩ := Bool.and_eq_true_iff.mp h
      rw [itemsText_cons_cons] at hfuel ⊢
      rw [List.length_append, List.length_cons, List.length_cons] at hfuel
      have hvalue := scanValue_text item hitem fuel (by omega)
        (',' :: ' ' :: (itemsText (next :: items) ++ ']' :: rest))
        (by rintro c ⟨⟩; exact .inl rfl)
      have hscan := scanItems_text next items hitems fuel (by omega) rest
      obtain ⟨c, tail, htext, hspace, -⟩ :=
        itemsText_eq_cons (Bool.and_eq_true_iff.mp hitems).1 items
      rw [List.append_assoc]
      refine scanItems_next hvalue ?_ hscan
      rw [htext]
      exact skipSpace_blank hspace _

/-- The fields of an object are read back up to its end. -/
theorem scanFields_text : (key : String) → (value : Json) → (fields : List (String × Json)) →
    fieldsLossless ((key, value) :: fields) = true → (fuel : ℕ) →
    2 * (fieldsText ((key, value) :: fields)).length ≤ fuel → (rest : List Char) →
    scanFields fuel (fieldsText ((key, value) :: fields) ++ '}' :: rest) =
      some ((key, value) :: fields, rest)
  | key, value, fields, h, 0, hfuel, rest => by
      obtain ⟨tail, htext⟩ := fieldsText_eq_cons key value fields
      rw [htext, List.length_cons] at hfuel
      omega
  | key, value, [], h, fuel + 1, hfuel, rest => by
      have hvalue : value.lossless = true := (Bool.and_eq_true_iff.mp h).1
      rw [fieldsText, List.length_append, List.length_cons, List.length_cons] at hfuel
      rw [fieldsText, scanFields_key key hvalue, scanValue_text value hvalue fuel (by omega) _
        (by rintro c ⟨⟩; exact .inr (.inr rfl))]
      rfl
  | key, value, (key', value') :: fields, h, fuel + 1, hfuel, rest => by
      obtain ⟨hvalue, hfields⟩ := Bool.and_eq_true_iff.mp h
      rw [fieldsText_cons_cons] at hfuel ⊢
      simp only [List.length_append, List.length_cons] at hfuel
      have hscan := scanFields_text key' value' fields hfields fuel (by omega) rest
      obtain ⟨tail, htext⟩ := fieldsText_eq_cons key' value' fields
      rw [htext, List.cons_append] at hscan
      rw [List.append_assoc, htext, scanFields_key key hvalue,
        scanValue_text value hvalue fuel (by omega) _ (by rintro c ⟨⟩; exact .inl rfl)]
      show (scanFields fuel (skipSpace (' ' :: '"' :: (tail ++ '}' :: rest)))).bind _ = _
      rw [skipSpace_blank (by decide), hscan]
      rfl

end

mutual

theorem convertible_of_lossless :
    (value : Json) → value.lossless = true → value.convertible = true
  | .null, _ | .bool _, _ | .str _, _ => rfl
  | .int _, h => h
  | .arr items, h => itemsConvertible_of_lossless items h
  | .obj fields, h => fieldsConvertible_of_lossless fields (Bool.and_eq_true_iff.mp h).2

theorem itemsConvertible_of_lossless :
    (items : List Json) → itemsLossless items = true → itemsConvertible items = true
  | [], _ => rfl
  | item :: items, h =>
      have h := Bool.and_eq_true_iff.mp h
      Bool.and_eq_true_iff.mpr
        ⟨convertible_of_lossless item h.1, itemsConvertible_of_lossless items h.2⟩

theorem fieldsConvertible_of_lossless :
    (fields : List (String × Json)) → fieldsLossless fields = true → fieldsConvertible fields = true
  | [], _ => rfl
  | (_, value) :: fields, h =>
      have h := Bool.and_eq_true_iff.mp h
      Bool.and_eq_true_iff.mpr
        ⟨convertible_of_lossless value h.1, fieldsConvertible_of_lossless fields h.2⟩

end

/-- A lossless value is written and read back as it is. -/
theorem loads_of_dumps {value : Json} (h : value.lossless = true) :
    ∃ text, value.dumps = some text ∧ loads text = some value := by
  refine ⟨_, if_pos (convertible_of_lossless value h), ?_⟩
  have hscan := scanValue_text value h (2 * value.text.length) (Nat.le_succ _) []
    (by rintro c ⟨⟩)
  rw [List.append_nil] at hscan
  rw [loads]
  dsimp only
  rw [String.toList_ofList]
  obtain ⟨c, tail, htext, hspace, -, hmark⟩ := text_eq_cons h
  rw [htext] at hscan ⊢
  rw [skipSpace_of_head hspace, hscan, if_neg]
  · rfl
  · exact fun hhead => hmark (Option.some.inj hhead)

end Python.Json
