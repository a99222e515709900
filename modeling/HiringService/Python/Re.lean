import HiringService.Python.Text

/-!
# Leftmost search for simple patterns

The part of Python's `re.search` that patterns of literal text, `.+?` and `\d+` need: the search
tries every position from the left, `.+?` takes as few characters as possible and never a newline,
`\d+` as many as possible, and both give way when the rest of the pattern does not match.
-/

namespace Python.Re

/-- A piece of a pattern; `captured` marks the group of the pattern. -/
inductive Piece
  | text (s : String)
  | any (captured : Bool)
  | digits (captured : Bool)

/-- The text after a literal prefix. -/
def stripPrefix : List Char → List Char → Option (List Char)
  | [], text => some text
  | _ :: _, [] => none
  | c :: cs, d :: text => if c = d then stripPrefix cs text else none

/-- `.+?` followed by `rest`: the characters that it takes and the result of `rest`. -/
def takeLazily {β : Type} (rest : List Char → Option β) : List Char → Option (List Char × β)
  | [] => none
  | c :: text =>
      if c = '\n' then none
      else match rest text with
        | some b => some ([c], b)
        | none => (takeLazily rest text).map fun r => (c :: r.1, r.2)

/-- `\d+` followed by `rest`. -/
def takeDigits {β : Type} (rest : List Char → Option β) : List Char → Option (List Char × β)
  | [] => none
  | c :: text =>
      if (digitValue c).isNone then none
      else match takeDigits rest text with
        | some r => some (c :: r.1, r.2)
        | none => (rest text).map fun b => ([c], b)

/-- Match at the start of the text; the result is the group. -/
def matchStart : List Piece → List Char → Option (List Char)
  | [], _ => some []
  | .text s :: pieces, text => (stripPrefix s.toList text).bind (matchStart pieces)
  | .any captured :: pieces, text =>
      (takeLazily (matchStart pieces) text).map fun r => if captured then r.1 else r.2
  | .digits captured :: pieces, text =>
      (takeDigits (matchStart pieces) text).map fun r => if captured then r.1 else r.2

/-- `re.search(pattern, text)`, and the group of the match. -/
def search (pattern : List Piece) : List Char → Option (List Char)
  | [] => matchStart pattern []
  | c :: text =>
      match matchStart pattern (c :: text) with
      | some group => some group
      | none => search pattern text

/-! ## Where a search ends -/

section Search

variable {β : Type} {rest : List Char → Option β} {b : β} {c d : Char} {s : String}
  {needle head text group found : List Char} {pieces : List Piece}

@[simp] theorem stripPrefix_append (needle text : List Char) :
    stripPrefix needle (needle ++ text) = some text := by
  induction needle with
  | nil => rfl
  | cons c needle ih =>
      rw [List.cons_append, stripPrefix, if_pos rfl]
      exact ih

theorem eq_append_of_stripPrefix (h : stripPrefix needle text = some found) :
    text = needle ++ found := by
  induction needle generalizing text with
  | nil => exact Option.some.inj h
  | cons c needle ih =>
      rcases text with _ | ⟨d, text⟩
      · cases h
      · rw [stripPrefix] at h
        by_cases hcd : c = d
        · rw [if_pos hcd] at h
          rw [hcd, ih h, List.cons_append]
        · rw [if_neg hcd] at h
          cases h

@[simp] theorem matchStart_text_append (s : String) (pieces : List Piece) (text : List Char) :
    matchStart (.text s :: pieces) (s.toList ++ text) = matchStart pieces text := by
  rw [matchStart, stripPrefix_append, Option.bind_some]

theorem matchStart_text_eq_some (h : matchStart (.text s :: pieces) text = some found) :
    ∃ tail, text = s.toList ++ tail ∧ matchStart pieces tail = some found := by
  rw [matchStart, Option.bind_eq_some_iff] at h
  obtain ⟨tail, hstrip, hfound⟩ := h
  exact ⟨tail, eq_append_of_stripPrefix hstrip, hfound⟩

/-- A literal that is not at the start of the text. -/
theorem matchStart_text_eq_none (h : ∀ found, text ≠ s.toList ++ found) :
    matchStart (.text s :: pieces) text = none := by
  rw [matchStart, Option.bind_eq_none_iff]
  intro found hfound
  exact absurd (eq_append_of_stripPrefix hfound) (h found)

theorem matchStart_text_cons_eq_none (hs : s.toList = c :: needle) (hcd : d ≠ c) :
    matchStart (.text s :: pieces) (d :: text) = none := by
  refine matchStart_text_eq_none fun found heq => ?_
  rw [hs, List.cons_append] at heq
  exact hcd (List.cons_eq_cons.mp heq).1

theorem search_of_matchStart (h : matchStart pieces text = some found) :
    search pieces text = some found := by
  rcases text with _ | ⟨c, text⟩
  · exact h
  · rw [search, h]

theorem search_cons (h : matchStart pieces (c :: text) = none) :
    search pieces (c :: text) = search pieces text := by
  rw [search, h]

/-- The search passes over text without the first character of the pattern. -/
theorem search_append_of_notMem (hs : s.toList = c :: needle) (hhead : c ∉ head) :
    search (.text s :: pieces) (head ++ text) = search (.text s :: pieces) text := by
  induction head with
  | nil => rfl
  | cons e head ih =>
      rw [List.mem_cons, not_or] at hhead
      rw [List.cons_append, search_cons (matchStart_text_cons_eq_none hs (Ne.symm hhead.1))]
      exact ih hhead.2

/-- The search passes over text in which the literal at the start of the pattern does not occur, if
what follows is no continuation of the literal. -/
theorem search_append_of_absent (hs : s.toList = c :: needle) (hhead : ¬ s.toList <:+: head)
    (htext : text.head? = some d) (hd : d ∉ needle) :
    search (.text s :: pieces) (head ++ text) = search (.text s :: pieces) text := by
  induction head with
  | nil => rfl
  | cons e head ih =>
      have htail : ¬ s.toList <:+: head := fun h => hhead (h.trans (List.suffix_cons e head).isInfix)
      rw [List.cons_append, search_cons (matchStart_text_eq_none fun found heq => ?_), ih htail]
      rw [← List.cons_append] at heq
      rcases List.append_eq_append_iff.mp heq with ⟨mid, hliteral, hrest⟩ | ⟨mid, hoccurs, -⟩
      · rcases mid with _ | ⟨x, mid⟩
        · rw [List.append_nil] at hliteral
          exact hhead (hliteral ▸ List.infix_rfl)
        · -- the literal would reach into what follows
          rw [hrest] at htext
          obtain rfl := Option.some.inj htext
          rw [hs, List.cons_append] at hliteral
          refine hd ?_
          rw [(List.cons_eq_cons.mp hliteral).2]
          simp
      · exact hhead ⟨[], mid, by rw [hoccurs, List.nil_append]⟩

/-- `.+?` takes the characters at which the rest of the pattern cannot match. -/
theorem takeLazily_append (hgroup : group ≠ []) (hline : '\n' ∉ group)
    (hfail : ∀ c ∈ group, ∀ text, rest (c :: text) = none) (hrest : rest text = some b) :
    takeLazily rest (group ++ text) = some (group, b) := by
  induction group with
  | nil => exact absurd rfl hgroup
  | cons c group ih =>
      rw [List.mem_cons, not_or] at hline
      rw [List.cons_append, takeLazily, if_neg (Ne.symm hline.1)]
      rcases group with _ | ⟨d, group⟩
      · rw [List.nil_append, hrest]
      · rw [List.cons_append, hfail d (by simp), ← List.cons_append,
          ih (List.cons_ne_nil d group) hline.2 fun c hc => hfail c (List.mem_cons_of_mem _ hc)]
        rfl

/-- `\d+` takes all the digits. -/
theorem takeDigits_append (hgroup : group ≠ []) (hdigits : ∀ c ∈ group, (digitValue c).isSome)
    (htext : text.head? = some d) (hend : digitValue d = none) (hrest : rest text = some b) :
    takeDigits rest (group ++ text) = some (group, b) := by
  obtain ⟨text', rfl⟩ := List.head?_eq_some_iff.mp htext
  induction group with
  | nil => exact absurd rfl hgroup
  | cons c group ih =>
      have hc : ¬ (digitValue c).isNone := by
        obtain ⟨digit, hdigit⟩ := Option.isSome_iff_exists.mp (hdigits c List.mem_cons_self)
        simp [hdigit]
      rw [List.cons_append, takeDigits, if_neg hc]
      rcases group with _ | ⟨e, group⟩
      · rw [List.nil_append, takeDigits, if_pos (by rw [hend]; rfl), hrest]
        rfl
      · rw [ih (List.cons_ne_nil e group) fun c hc => hdigits c (List.mem_cons_of_mem _ hc)]

/-- What `\d+` takes are digits, and the rest of the pattern matches behind them. -/
theorem takeDigits_eq_some {r : List Char × β} (h : takeDigits rest text = some r) :
    ∃ text', text = r.1 ++ text' ∧ r.1 ≠ [] ∧ (∀ c ∈ r.1, (digitValue c).isSome) ∧
      rest text' = some r.2 := by
  induction text generalizing r with
  | nil => cases h
  | cons c text ih =>
      rw [takeDigits] at h
      by_cases hc : (digitValue c).isNone
      · rw [if_pos hc] at h
        cases h
      · rw [if_neg hc] at h
        have hdigit : (digitValue c).isSome := by simpa [Option.isSome_iff_ne_none] using hc
        rcases hlater : takeDigits rest text with _ | later
        · rw [hlater] at h
          obtain ⟨b, hb, rfl⟩ := Option.map_eq_some_iff.mp h
          exact ⟨text, rfl, List.cons_ne_nil c [], by simpa using hdigit, hb⟩
        · rw [hlater] at h
          obtain rfl := Option.some.inj h
          obtain ⟨text', rfl, -, hdigits, hrest⟩ := ih hlater
          exact ⟨text', rfl, List.cons_ne_nil c _, List.forall_mem_cons.mpr ⟨hdigit, hdigits⟩, hrest⟩

/-- A search that finds something matches somewhere. -/
theorem search_eq_some (h : search pieces text = some found) :
    ∃ head tail, text = head ++ tail ∧ matchStart pieces tail = some found := by
  induction text with
  | nil => exact ⟨[], [], rfl, h⟩
  | cons c text ih =>
      rcases hmatch : matchStart pieces (c :: text) with _ | group
      · rw [search_cons hmatch] at h
        obtain ⟨head, tail, rfl, htail⟩ := ih h
        exact ⟨c :: head, tail, rfl, htail⟩
      · rw [search_of_matchStart hmatch] at h
        obtain rfl := Option.some.inj h
        exact ⟨[], c :: text, rfl, hmatch⟩

/-- A search that finds nothing matches nowhere. -/
theorem matchStart_eq_none_of_search (h : search pieces (head ++ text) = none) :
    matchStart pieces text = none := by
  induction head with
  | nil =>
      rcases hmatch : matchStart pieces text with _ | group
      · rfl
      · rw [List.nil_append, search_of_matchStart hmatch] at h
        cases h
  | cons c head ih =>
      rw [List.cons_append] at h
      rcases hmatch : matchStart pieces (c :: (head ++ text)) with _ | group
      · rw [search_cons hmatch] at h
        exact ih h
      · rw [search_of_matchStart hmatch] at h
        cases h

end Search

end Python.Re
