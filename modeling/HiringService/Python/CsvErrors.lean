import HiringService.Python.Csv
import Mathlib.Data.Nat.Notation

/-!
# When the reader raises

The reader raises in two cases only: a carriage return outside quotes is followed by something that
is neither another carriage return nor a line feed, or a field has more characters than the limit.
Both are stated on the text: `position` says where the text stands after its first characters, and
knows nothing of lines, rows and errors.
-/

namespace Python.Csv

/-- Whether the text is at the start of a field, inside one without or with quotes, or behind a
quote in a quoted field. -/
inductive Place
  | fieldStart
  | unquoted
  | quoted
  | afterQuote
  deriving DecidableEq

/-- The place, and the number of characters of the field so far. -/
structure Position where
  place : Place
  length : ℕ

/-- The position behind the next character. -/
def Position.next (p : Position) (c : Char) : Position :=
  if p.place = .quoted then
    if c = '"' then ⟨.afterQuote, p.length⟩ else ⟨.quoted, p.length + 1⟩
  else if c = ',' ∨ c = '\n' ∨ c = '\r' then ⟨.fieldStart, 0⟩
  else if c = '"' ∧ p.place = .fieldStart then ⟨.quoted, 0⟩
  else if c = '"' ∧ p.place = .afterQuote then ⟨.quoted, p.length + 1⟩
  else ⟨.unquoted, p.length + 1⟩

/-- The position at the end of a text. -/
def position (text : List Char) : Position := text.foldl Position.next ⟨.fieldStart, 0⟩

/-- A carriage return outside quotes is followed by more of the line. -/
def StrayReturn (text : List Char) : Prop :=
  ∃ before c after, text = before ++ '\r' :: c :: after ∧ (position before).place ≠ .quoted ∧
    ¬ (c = '\n' ∨ c = '\r')

/-- Some field is longer than `field_size_limit()`. -/
def LongField (text : List Char) : Prop :=
  ∃ before after, text = before ++ after ∧ fieldLimit < (position before).length

/-! ## Texts from a position on -/

/-- The text that follows a position has no stray return and no long field; `returned` says that a
carriage return outside quotes comes right before it. -/
structure Clean (p : Position) (returned : Prop) (text : List Char) : Prop where
  first : returned → ∀ c after, text = c :: after → c = '\n' ∨ c = '\r'
  returns : ∀ before c after, text = before ++ '\r' :: c :: after →
    (before.foldl Position.next p).place ≠ .quoted → c = '\n' ∨ c = '\r'
  lengths : ∀ before after, text = before ++ after →
    (before.foldl Position.next p).length ≤ fieldLimit

section

variable {p : Position} {returned : Prop} {c : Char} {text : List Char}

theorem clean_nil (h : p.length ≤ fieldLimit) : Clean p returned [] where
  first _ _ _ h' := by cases h'
  returns before _ _ h' _ := by
    have hlength := congrArg List.length h'
    simp at hlength
  lengths before after h' := by
    obtain ⟨rfl, -⟩ := List.append_eq_nil_iff.mp h'.symm
    exact h

/-- What the first character has to do with it. -/
theorem clean_cons : Clean p returned (c :: text) ↔ (returned → c = '\n' ∨ c = '\r') ∧
    p.length ≤ fieldLimit ∧ Clean (p.next c) (c = '\r' ∧ p.place ≠ .quoted) text := by
  constructor
  · intro h
    refine ⟨fun hr => h.first hr c text rfl, h.lengths [] (c :: text) rfl, ?_, ?_, ?_⟩
    · rintro ⟨rfl, hplace⟩ c' after rfl
      exact h.returns [] c' after rfl hplace
    · rintro before c' after rfl hplace
      exact h.returns (c :: before) c' after rfl hplace
    · rintro before after rfl
      exact h.lengths (c :: before) after rfl
  · rintro ⟨hfirst, hlength, h⟩
    refine ⟨?_, ?_, ?_⟩
    · rintro hr c' after heq
      obtain ⟨rfl, -⟩ := List.cons.inj heq
      exact hfirst hr
    · rintro (_ | ⟨b, before⟩) c' after heq hplace
      · obtain ⟨rfl, rfl⟩ := List.cons.inj heq
        exact h.first ⟨rfl, hplace⟩ c' after rfl
      · obtain ⟨rfl, rfl⟩ := List.cons.inj heq
        exact h.returns before c' after rfl hplace
    · rintro (_ | ⟨b, before⟩) after heq
      · exact hlength
      · obtain ⟨rfl, rfl⟩ := List.cons.inj heq
        exact h.lengths before after rfl

/-- At the start of a text. -/
theorem clean_iff :
    Clean ⟨.fieldStart, 0⟩ False text ↔ ¬ StrayReturn text ∧ ¬ LongField text := by
  constructor
  · intro h
    refine ⟨?_, ?_⟩
    · rintro ⟨before, c, after, rfl, hplace, hc⟩
      exact hc (h.returns before c after rfl hplace)
    · rintro ⟨before, after, rfl, hlength⟩
      exact Nat.not_lt.mpr (h.lengths before after rfl) hlength
  · rintro ⟨hreturns, hlengths⟩
    refine ⟨False.elim, ?_, ?_⟩
    · rintro before c after rfl hplace
      by_contra hc
      exact hreturns ⟨before, c, after, rfl, hplace, hc⟩
    · rintro before after rfl
      exact Nat.le_of_not_lt fun hlength => hlengths ⟨before, after, rfl, hlength⟩

end

/-! ## The reader -/

/-- The position that a reader has reached. -/
def Reader.position (r : Reader) : Position :=
  match r.state with
  | .startRecord | .startField | .eatCrnl => ⟨.fieldStart, 0⟩
  | .inField => ⟨.unquoted, r.field.length⟩
  | .inQuotedField => ⟨.quoted, r.field.length⟩
  | .quoteInQuotedField => ⟨.afterQuote, r.field.length⟩

/-- Between two fields the current one is empty, and no field exceeds the limit. -/
structure Reader.Sound (r : Reader) : Prop where
  start : r.state = .startRecord ∨ r.state = .startField ∨ r.state = .eatCrnl → r.field = []
  limit : r.field.length ≤ fieldLimit

theorem Reader.Sound.position_length {r : Reader} (h : r.Sound) :
    r.position.length ≤ fieldLimit := by
  rw [Reader.position]
  split
  all_goals first | exact h.limit | exact Nat.zero_le _

theorem sound_reset : Reader.reset.Sound := ⟨fun _ => rfl, Nat.zero_le _⟩

/-- What becomes of a reader by one character: it follows the position, or it raises because a
return is stray or a field gets too long. -/
structure Reader.Follows (r : Reader) (c : Char) (r' : Reader) : Prop where
  sound : r'.Sound
  position : r'.position = r.position.next c
  first : r.state = .eatCrnl → c = '\n' ∨ c = '\r'
  returned : r'.state = .eatCrnl ↔ (c = '\n' ∨ c = '\r') ∧ r.position.place ≠ .quoted

section Steps

variable {r r' : Reader} {c : Char} {state : State} {field : List Char} {fields : List String}

/-- What becomes of a reader by a character that belongs to the field: it is added, or the field is
full. -/
theorem addChar_cases (r : Reader) (c : Char) (next : State)
    (hchar : r.processChar c = do let r' ← r.addChar c; return { r' with state := next })
    (hstate : r.state ≠ .eatCrnl) (hnext : next = .inField ∨ next = .inQuotedField)
    (hposition : (⟨next, c :: r.field, r.fields⟩ : Reader).position = r.position.next c)
    (hline : (c = '\n' ∨ c = '\r') → r.position.place = .quoted) :
    (∃ r', r.processChar c = .ok r' ∧ r.Follows c r') ∨
      (∃ e, r.processChar c = .error e) ∧ fieldLimit < (r.position.next c).length := by
  rw [hchar, Reader.addChar]
  by_cases hfull : fieldLimit ≤ r.field.length
  · rw [if_pos hfull]
    refine Or.inr ⟨⟨_, rfl⟩, ?_⟩
    rw [← hposition]
    rcases hnext with rfl | rfl
    · exact Nat.lt_succ_of_le hfull
    · exact Nat.lt_succ_of_le hfull
  · rw [if_neg hfull]
    refine Or.inl ⟨⟨next, c :: r.field, r.fields⟩, rfl, ⟨?_, Nat.lt_of_not_le hfull⟩, hposition,
      fun h => absurd h hstate, ?_⟩
    · rcases hnext with rfl | rfl
      · nofun
      · nofun
    · refine iff_of_false ?_ fun h => h.2 (hline h.1)
      rcases hnext with rfl | rfl
      · nofun
      · nofun

/-- Outside quotes a comma, a line feed and a return end the field. -/
theorem next_of_ends {p : Position} (hplace : p.place ≠ .quoted) (hc : c = ',' ∨ c = '\n' ∨ c = '\r') :
    p.next c = ⟨.fieldStart, 0⟩ := by
  rw [Position.next, if_neg hplace, if_pos hc]

/-- The end of a line outside quotes. -/
theorem follows_line (hplace : r.position.place ≠ .quoted) (hline : c = '\n' ∨ c = '\r')
    (fields : List String) : r.Follows c ⟨.eatCrnl, [], fields⟩ where
  sound := ⟨fun _ => rfl, Nat.zero_le _⟩
  position := (next_of_ends hplace (Or.inr hline)).symm
  first _ := hline
  returned := iff_of_true rfl ⟨hline, hplace⟩

/-- A comma outside quotes. -/
theorem follows_comma (hplace : r.position.place ≠ .quoted) (hstate : r.state ≠ .eatCrnl)
    (fields : List String) : r.Follows ',' ⟨.startField, [], fields⟩ where
  sound := ⟨fun _ => rfl, Nat.zero_le _⟩
  position := (next_of_ends hplace (Or.inl rfl)).symm
  first h := absurd h hstate
  returned := by simp

/-- A character in a place where a field begins. -/
theorem beginField_follows (hfield : r.field = []) (hstart : r.position = ⟨.fieldStart, 0⟩)
    (hstate : r.state ≠ .eatCrnl) : ∃ r', r.beginField c = .ok r' ∧ r.Follows c r' := by
  obtain ⟨state, field, fields⟩ := r
  subst hfield
  have hplace : (⟨state, [], fields⟩ : Reader).position.place ≠ .quoted := by
    rw [hstart]
    decide
  by_cases hline : c = '\n' ∨ c = '\r'
  · exact ⟨_, if_pos hline, follows_line hplace hline _⟩
  by_cases hquote : c = '"'
  · subst hquote
    refine ⟨⟨.inQuotedField, [], fields⟩, rfl, ⟨by simp, Nat.zero_le _⟩, ?_, fun h => absurd h hstate,
      by simp⟩
    rw [hstart]
    rfl
  by_cases hcomma : c = ','
  · subst hcomma
    exact ⟨_, rfl, follows_comma hplace hstate _⟩
  · refine ⟨⟨.inField, [c], fields⟩, ?_, ⟨by simp, by simp [fieldLimit]⟩, ?_, fun h => absurd h hstate,
      by simp [hline]⟩
    · rw [Reader.beginField, if_neg hline, if_neg hquote, if_neg hcomma]
      rfl
    · rw [hstart]
      simp [Reader.position, Position.next, hquote, hcomma, not_or.mp hline]

/-- A character: the reader follows the position, or raises where a return is stray or a field too
long. -/
theorem processChar_cases (h : r.Sound) : (∃ r', r.processChar c = .ok r' ∧ r.Follows c r') ∨
    (∃ e, r.processChar c = .error e) ∧ ((r.state = .eatCrnl ∧ ¬ (c = '\n' ∨ c = '\r')) ∨
      fieldLimit < (r.position.next c).length) := by
  obtain ⟨state, field, fields⟩ := r
  cases state with
  | startRecord =>
      left
      obtain rfl : field = [] := h.start (Or.inl rfl)
      by_cases hline : c = '\n' ∨ c = '\r'
      · exact ⟨_, if_pos hline, follows_line (by simp [Reader.position]) hline _⟩
      · obtain ⟨r', hr', hfollows⟩ := beginField_follows (r := ⟨.startRecord, [], fields⟩) (c := c) rfl
          rfl (by simp)
        exact ⟨r', (if_neg hline).trans hr', hfollows⟩
  | startField =>
      left
      obtain rfl : field = [] := h.start (Or.inr (Or.inl rfl))
      exact beginField_follows rfl rfl (by simp)
  | eatCrnl =>
      obtain rfl : field = [] := h.start (Or.inr (Or.inr rfl))
      by_cases hline : c = '\n' ∨ c = '\r'
      · exact Or.inl ⟨_, if_pos hline, follows_line (by simp [Reader.position]) hline _⟩
      · exact Or.inr ⟨⟨_, if_neg hline⟩, Or.inl ⟨rfl, hline⟩⟩
  | inField =>
      have hplace : (⟨.inField, field, fields⟩ : Reader).position.place ≠ .quoted := nofun
      by_cases hline : c = '\n' ∨ c = '\r'
      · exact Or.inl ⟨_, if_pos hline, follows_line hplace hline _⟩
      by_cases hcomma : c = ','
      · subst hcomma
        exact Or.inl ⟨_, rfl, follows_comma hplace nofun _⟩
      · have hnext : (⟨.unquoted, field.length⟩ : Position).next c = ⟨.unquoted, field.length + 1⟩ := by
          simp [Position.next, hcomma, not_or.mp hline]
        refine (addChar_cases ⟨.inField, field, fields⟩ c .inField ?_ nofun (Or.inl rfl) hnext.symm
          fun h => absurd h hline).imp id (And.imp_right Or.inr)
        exact ((if_neg hline).trans (if_neg hcomma)).trans (by rw [Reader.addChar]; split <;> rfl)
  | inQuotedField =>
      by_cases hquote : c = '"'
      · left
        subst hquote
        exact ⟨⟨.quoteInQuotedField, field, fields⟩, rfl, ⟨by simp, h.limit⟩, rfl, nofun, by simp⟩
      · have hnext : (⟨.quoted, field.length⟩ : Position).next c = ⟨.quoted, field.length + 1⟩ := by
          simp [Position.next, hquote]
        refine (addChar_cases ⟨.inQuotedField, field, fields⟩ c .inQuotedField ?_ nofun (Or.inr rfl)
          hnext.symm fun _ => rfl).imp id (And.imp_right Or.inr)
        exact (if_neg hquote).trans (by rw [Reader.addChar]; split <;> rfl)
  | quoteInQuotedField =>
      have hplace : (⟨.quoteInQuotedField, field, fields⟩ : Reader).position.place ≠ .quoted := nofun
      by_cases hquote : c = '"'
      · -- a doubled quote belongs to the field
        subst hquote
        exact (addChar_cases ⟨.quoteInQuotedField, field, fields⟩ '"' .inQuotedField rfl nofun
          (Or.inr rfl) rfl (absurd · (by decide))).imp id (And.imp_right Or.inr)
      by_cases hcomma : c = ','
      · subst hcomma
        exact Or.inl ⟨_, rfl, follows_comma hplace nofun _⟩
      by_cases hline : c = '\n' ∨ c = '\r'
      · left
        refine ⟨_, ?_, follows_line hplace hline (String.ofList field.reverse :: fields)⟩
        exact (if_neg hquote).trans ((if_neg hcomma).trans (if_pos hline))
      · -- the reader is not strict: the field goes on without quotes
        have hnext : (⟨.afterQuote, field.length⟩ : Position).next c =
            ⟨.unquoted, field.length + 1⟩ := by
          simp [Position.next, hcomma, hquote, not_or.mp hline]
        refine (addChar_cases ⟨.quoteInQuotedField, field, fields⟩ c .inField ?_ nofun (Or.inl rfl)
          hnext.symm fun h => absurd h hline).imp id (And.imp_right Or.inr)
        exact (if_neg hquote).trans ((if_neg hcomma).trans (if_neg hline))

/-- The end-of-line mark never raises. -/
theorem processEol_ok (r : Reader) : ∃ r', r.processEol = .ok r' := by
  rw [Reader.processEol]
  split
  all_goals exact ⟨_, rfl⟩

end Steps

/-! ## All the lines -/

/-- The reader delivers the rest of the lines without raising. -/
def Delivers (r : Reader) (lines : List (List Char)) : Prop := ∃ rows, readRows r lines = .ok rows

/-- The reader that goes on behind the end of a line. -/
def Reader.afterLine (r : Reader) : Reader := if r.state = .startRecord then .reset else r

section Lines

variable {r r' r'' : Reader} {c : Char} {line : List Char} {lines : List (List Char)}

theorem delivers_nil : Delivers r [] := by
  rw [Delivers, readRows]
  split
  all_goals exact ⟨_, rfl⟩

theorem delivers_cons : Delivers r (line :: lines) ↔
    ∃ r', r.processLine line = .ok r' ∧ Delivers r'.afterLine lines := by
  rw [Delivers, readRows]
  rcases r.processLine line with e | r'
  · exact iff_of_false nofun nofun
  have hok : (∃ r'', (Except.ok r' : Except Error Reader) = .ok r'' ∧ Delivers r''.afterLine lines) ↔
      Delivers r'.afterLine lines := by simp
  rw [hok]
  by_cases hstate : r'.state = .startRecord
  · rw [show r'.afterLine = .reset from if_pos hstate]
    show (∃ rows, (if r'.state = .startRecord then _ else _) = _) ↔ _
    rw [if_pos hstate]
    constructor
    · rintro ⟨rows, hrows⟩
      rcases hrest : readRows .reset lines with e | rest
      · rw [hrest] at hrows
        cases hrows
      · exact ⟨rest, hrest⟩
    · rintro ⟨rest, hrest⟩
      rw [hrest]
      exact ⟨_, rfl⟩
  · rw [show r'.afterLine = r' from if_neg hstate]
    show (∃ rows, (if r'.state = .startRecord then _ else _) = _) ↔ _
    rw [if_neg hstate]
    rfl

/-- A character of a line, with the rest of the line to come. -/
theorem delivers_cons_cons : Delivers r ((c :: line) :: lines) ↔
    ∃ r', r.processChar c = .ok r' ∧ Delivers r' (line :: lines) := by
  simp only [delivers_cons, Reader.processLine, List.foldlM_cons]
  rcases r.processChar c with e | r'
  · exact iff_of_false nofun nofun
  · constructor
    · intro h
      exact ⟨r', rfl, h⟩
    · rintro ⟨r'', hr'', h⟩
      cases hr''
      exact h

/-- An empty rest of the last line. -/
theorem delivers_last : Delivers r [[]] := by
  obtain ⟨r', hr'⟩ := processEol_ok r
  exact delivers_cons.mpr ⟨r', hr', delivers_nil⟩

/-- A character of the text that does not end a line. -/
theorem delivers_splitLines_cons (hc : c ≠ '\n') (text : List Char) :
    Delivers r (splitLines (c :: text)) ↔
      ∃ r', r.processChar c = .ok r' ∧ Delivers r' (splitLines text) := by
  rw [splitLines, if_neg hc]
  rcases splitLines text with _ | ⟨line, lines⟩
  · rw [delivers_cons_cons]
    simp only [delivers_last, delivers_nil]
  · exact delivers_cons_cons

/-- A line feed. -/
theorem delivers_splitLines_newline (text : List Char) :
    Delivers r (splitLines ('\n' :: text)) ↔ ∃ r' r'', r.processChar '\n' = .ok r' ∧
      r'.processEol = .ok r'' ∧ Delivers r''.afterLine (splitLines text) := by
  rw [splitLines, if_pos rfl, delivers_cons_cons]
  simp only [delivers_cons]
  constructor
  · rintro ⟨r', hr', r'', hr'', h⟩
    exact ⟨r', r'', hr', hr'', h⟩
  · rintro ⟨r', r'', hr', hr'', h⟩
    exact ⟨r', hr', r'', hr'', h⟩

/-- The reader that goes on behind a line feed stands at the same position, and at no return. -/
theorem afterLine_spec (h : r.Follows '\n' r') (heol : r'.processEol = .ok r'') :
    r''.afterLine.Sound ∧ r''.afterLine.position = r.position.next '\n' ∧
      r''.afterLine.state ≠ .eatCrnl := by
  obtain ⟨state, field, fields⟩ := r'
  by_cases hplace : r.position.place = .quoted
  · -- the line feed belongs to a quoted field, which goes on in the next line
    have hposition := h.position
    rw [Position.next, if_pos hplace, if_neg (by decide)] at hposition
    obtain rfl : state = .inQuotedField := by
      cases state with
      | inQuotedField => rfl
      | _ => cases hposition
    cases heol
    exact ⟨h.sound, h.position, nofun⟩
  · obtain rfl : state = .eatCrnl := h.returned.mpr ⟨Or.inl rfl, hplace⟩
    cases heol
    exact ⟨sound_reset, h.position, nofun⟩

/-- The reader goes through a text exactly when no return is stray and no field is too long. -/
theorem delivers_iff (h : r.Sound) (text : List Char) :
    Delivers r (splitLines text) ↔ Clean r.position (r.state = .eatCrnl) text := by
  induction text generalizing r with
  | nil => exact iff_of_true delivers_nil (clean_nil h.position_length)
  | cons c text ih =>
      rw [clean_cons]
      rcases processChar_cases (c := c) h with ⟨r', hr', hfollows⟩ | ⟨⟨e, he⟩, hraised⟩
      · by_cases hc : c = '\n'
        · -- a line ends here, and the reader gets its mark
          subst hc
          obtain ⟨r'', hr''⟩ := processEol_ok r'
          obtain ⟨hsound, hposition, hstate⟩ := afterLine_spec hfollows hr''
          have hreturned : r''.afterLine.state = .eatCrnl ↔
              '\n' = '\r' ∧ r.position.place ≠ .quoted :=
            iff_of_false hstate fun hfalse => absurd hfalse.1 (by decide)
          have hrest := ih hsound
          rw [hposition, hreturned] at hrest
          rw [delivers_splitLines_newline, ← hrest]
          constructor
          · rintro ⟨r₁, r₂, hr₁, hr₂, hdelivers⟩
            cases hr'.symm.trans hr₁
            cases hr''.symm.trans hr₂
            exact ⟨hfollows.first, h.position_length, hdelivers⟩
          · rintro ⟨-, -, hdelivers⟩
            exact ⟨r', r'', hr', hr'', hdelivers⟩
        · have hreturned : r'.state = .eatCrnl ↔ c = '\r' ∧ r.position.place ≠ .quoted := by
            rw [hfollows.returned, or_iff_right hc]
          have hrest := ih hfollows.sound
          rw [hfollows.position, hreturned] at hrest
          rw [delivers_splitLines_cons hc, ← hrest]
          constructor
          · rintro ⟨r₁, hr₁, hdelivers⟩
            cases hr'.symm.trans hr₁
            exact ⟨hfollows.first, h.position_length, hdelivers⟩
          · rintro ⟨-, -, hdelivers⟩
            exact ⟨r', hr', hdelivers⟩
      · -- the reader raises, at a stray return or at a full field
        have hfails : ¬ Delivers r (splitLines (c :: text)) := by
          intro hdelivers
          by_cases hc : c = '\n'
          · subst hc
            obtain ⟨_, _, hr', -, -⟩ := (delivers_splitLines_newline text).mp hdelivers
            cases he.symm.trans hr'
          · obtain ⟨_, hr', -⟩ := (delivers_splitLines_cons hc text).mp hdelivers
            cases he.symm.trans hr'
        refine iff_of_false hfails ?_
        rintro ⟨hfirst, -, hclean⟩
        rcases hraised with ⟨hstate, hc⟩ | hlength
        · exact hc (hfirst hstate)
        · exact absurd (hclean.lengths [] text rfl) (Nat.not_le.mpr hlength)

/-- The reader returns the rows of a text exactly when no return is stray and no field is too
long. -/
theorem reader_ok_iff (text : List Char) :
    (∃ rows, reader text = .ok rows) ↔ ¬ StrayReturn text ∧ ¬ LongField text := by
  have hfalse : (Reader.reset.state = .eatCrnl) = False := eq_false nofun
  have hiff := delivers_iff sound_reset text
  rw [hfalse] at hiff
  exact hiff.trans clean_iff

end Lines

end Python.Csv
