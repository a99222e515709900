import HiringService.Python.Csv

/-!
# What `csv.writer` writes, `csv.reader` reads

The `excel` dialect writes its rows with `\r\n` behind each, and quotes a field if it contains a
comma, a quote or a character of the line end. The rows are read back as they are
(`reader_writer`), if no field is longer than the limit of the reader; and all rows that the reader
delivers keep this limit (`length_le_of_reader`).
-/

namespace Python.Csv

/-! ## Writing -/

/-- The characters for which a field is quoted. -/
def special (c : Char) : Bool := c = ',' ∨ c = '"' ∨ c = '\r' ∨ c = '\n'

/-- A field with its quotes doubled. -/
def doubled (field : List Char) : List Char :=
  field.flatMap fun c => if c = '"' then ['"', '"'] else [c]

/-- A field, in quotes if it has to be. -/
def fieldText (field : String) : List Char :=
  if field.toList.any special then '"' :: (doubled field.toList ++ ['"']) else field.toList

/-- The fields of a row, and the end of its line. -/
def fieldsText : List String → List Char
  | [] => ['\r', '\n']
  | [field] => fieldText field ++ ['\r', '\n']
  | field :: fields => fieldText field ++ ',' :: fieldsText fields

/-- A row. A single empty field is quoted, since the line would be empty without it. -/
def rowText (row : List String) : List Char :=
  if row = [""] then ['"', '"', '\r', '\n'] else fieldsText row

/-- `csv.writer(file).writerows(rows)`. -/
def writer (rows : List (List String)) : List Char := rows.flatMap rowText

/-! ## The reader on a text -/

section Reading

variable {r r' : Reader} {c : Char} {text : List Char} {acc chars : List Char} {fields : List String}

theorem splitLines_ne_nil (htext : text ≠ []) : ∃ line lines, splitLines text = line :: lines := by
  rcases text with _ | ⟨c, text⟩
  · exact absurd rfl htext
  · rw [splitLines]
    split_ifs
    · exact ⟨_, _, rfl⟩
    · split
      · exact ⟨_, _, rfl⟩
      · exact ⟨_, _, rfl⟩

/-- A character that does not end a line. -/
theorem readRows_cons (hc : c ≠ '\n') (htext : text ≠ []) :
    readRows r (splitLines (c :: text)) =
      (r.processChar c).bind fun r' => readRows r' (splitLines text) := by
  obtain ⟨line, lines, hlines⟩ := splitLines_ne_nil htext
  rw [splitLines, if_neg hc, hlines]
  show readRows r ((c :: line) :: lines) = _
  rw [readRows, Reader.processLine, List.foldlM_cons]
  rcases r.processChar c with e | r'
  · rfl
  · show _ = readRows r' (line :: lines)
    rw [readRows]
    rfl

/-- A line feed. -/
theorem readRows_newline : readRows r (splitLines ('\n' :: text)) =
    (r.processChar '\n').bind fun r' => r'.processEol.bind fun r'' =>
      if r''.state = .startRecord then
        (readRows .reset (splitLines text)).map fun rows => r''.fields.reverse :: rows
      else readRows r'' (splitLines text) := by
  rw [splitLines, if_pos rfl, readRows, Reader.processLine, List.foldlM_cons]
  rcases r.processChar '\n' with e | r'
  · rfl
  show (r'.processEol).bind _ = (r'.processEol).bind _
  congr 1

/-- A character that belongs to the field, in the states inside of one. -/
theorem addChar_eq (hlimit : acc.length < fieldLimit) (state : State) (c : Char) :
    (⟨state, acc, fields⟩ : Reader).addChar c = .ok ⟨state, c :: acc, fields⟩ :=
  if_neg (Nat.not_le.mpr hlimit)

/-- The characters of a field inside quotes. -/
theorem readRows_quoted (htext : text ≠ []) (hlimit : acc.length + chars.length ≤ fieldLimit) :
    readRows ⟨.inQuotedField, acc, fields⟩ (splitLines (doubled chars ++ '"' :: text)) =
      readRows ⟨.quoteInQuotedField, chars.reverse ++ acc, fields⟩ (splitLines text) := by
  induction chars generalizing acc with
  | nil =>
      rw [doubled, List.flatMap_nil, List.nil_append, readRows_cons (by decide) htext]
      rfl
  | cons c chars ih =>
      rw [List.length_cons] at hlimit
      have hnext := @ih (c :: acc) (by rw [List.length_cons]; omega)
      have hfull : acc.length < fieldLimit := by omega
      have hrest : doubled chars ++ '"' :: text ≠ [] := by simp
      rw [List.reverse_cons, List.append_assoc, List.singleton_append, ← hnext]
      rw [doubled, List.flatMap_cons, ← doubled]
      by_cases hquote : c = '"'
      · -- the first of two quotes might end the field, the second takes it back
        subst hquote
        rw [if_pos rfl, List.append_assoc, List.cons_append, List.singleton_append,
          readRows_cons (by decide) (List.cons_ne_nil _ _)]
        show readRows ⟨.quoteInQuotedField, acc, fields⟩ _ = _
        rw [readRows_cons (by decide) hrest]
        show (((⟨.quoteInQuotedField, acc, fields⟩ : Reader).addChar '"').bind fun r =>
          .ok { r with state := .inQuotedField }).bind _ = _
        rw [addChar_eq hfull]
        rfl
      · rw [if_neg hquote, List.append_assoc, List.singleton_append]
        by_cases hnewline : c = '\n'
        · -- the line ends here, but the field does not
          subst hnewline
          rw [readRows_newline]
          show ((⟨.inQuotedField, acc, fields⟩ : Reader).addChar '\n').bind _ = _
          rw [addChar_eq hfull]
          rfl
        · rw [readRows_cons hnewline hrest]
          show (if c = '"' then _ else (⟨.inQuotedField, acc, fields⟩ : Reader).addChar c).bind _ = _
          rw [if_neg hquote, addChar_eq hfull]
          rfl

/-- The characters of a field without quotes. -/
theorem readRows_unquoted (htext : text ≠ []) (hchars : ∀ c ∈ chars, special c = false)
    (hlimit : acc.length + chars.length ≤ fieldLimit) :
    readRows ⟨.inField, acc, fields⟩ (splitLines (chars ++ text)) =
      readRows ⟨.inField, chars.reverse ++ acc, fields⟩ (splitLines text) := by
  induction chars generalizing acc with
  | nil => rfl
  | cons c chars ih =>
      obtain ⟨hc, hchars⟩ := List.forall_mem_cons.mp hchars
      rw [List.length_cons] at hlimit
      have hnext := @ih (c :: acc) hchars (by rw [List.length_cons]; omega)
      have hplain : c ≠ ',' ∧ c ≠ '"' ∧ c ≠ '\r' ∧ c ≠ '\n' := by simpa [special] using hc
      rw [List.reverse_cons, List.append_assoc, List.singleton_append, ← hnext, List.cons_append,
        readRows_cons hplain.2.2.2 (by simp [htext])]
      show (if c = '\n' ∨ c = '\r' then _ else if c = ',' then _ else
        (⟨.inField, acc, fields⟩ : Reader).addChar c).bind _ = _
      rw [if_neg (by simp [hplain]), if_neg hplain.1, addChar_eq (by omega)]
      rfl

/-- The reader behind a field, at the comma or at the end of the line. -/
def Reader.ended (field : String) (fields : List String) (sep : Char) : Reader :=
  ⟨if sep = ',' then .startField else .eatCrnl, [], field :: fields⟩

/-- The end of a field that has characters or quotes. -/
theorem processChar_sep {field : String} {state : State} {sep : Char}
    (hstate : state = .inField ∨ state = .quoteInQuotedField) (hsep : sep = ',' ∨ sep = '\r')
    (hfield : acc = field.toList.reverse) :
    (⟨state, acc, fields⟩ : Reader).processChar sep = .ok (.ended field fields sep) := by
  have hsaved : String.ofList acc.reverse = field := by
    rw [hfield, List.reverse_reverse, String.ofList_toList]
  rw [← hsaved]
  rcases hstate with rfl | rfl <;> rcases hsep with rfl | rfl <;> rfl

/-- A field with what ends it, where a field begins. At the start of a record an empty field has to
be followed by a comma. -/
theorem readRows_field {field : String} {start : State} {sep : Char} (htext : text ≠ [])
    (hlimit : field.length ≤ fieldLimit) (hsep : sep = ',' ∨ sep = '\r')
    (hstart : start = .startField ∨ start = .startRecord ∧ (field ≠ "" ∨ sep = ',')) :
    readRows ⟨start, [], fields⟩ (splitLines (fieldText field ++ sep :: text)) =
      readRows (.ended field fields sep) (splitLines text) := by
  have hfeed : sep ≠ '\n' := by rcases hsep with rfl | rfl <;> decide
  rw [← String.length_toList] at hlimit
  rw [fieldText]
  split_ifs with hquoted
  · have hopen : (⟨start, [], fields⟩ : Reader).processChar '"' = .ok ⟨.inQuotedField, [], fields⟩ := by
      rcases hstart with rfl | ⟨rfl, -⟩ <;> rfl
    rw [List.cons_append, List.append_assoc, List.singleton_append,
      readRows_cons (by decide) (by simp), hopen]
    show readRows ⟨.inQuotedField, [], fields⟩ _ = _
    rw [readRows_quoted (List.cons_ne_nil _ _) (by simpa using hlimit), readRows_cons hfeed htext,
      processChar_sep (.inr rfl) hsep (List.append_nil _)]
    rfl
  · have hplain : ∀ c ∈ field.toList, special c = false := by simpa using hquoted
    rcases hchars : field.toList with _ | ⟨c, chars⟩
    · -- an empty field: its separator comes at once
      obtain rfl : field = "" := by rwa [← String.toList_eq_nil_iff]
      rw [List.nil_append, readRows_cons hfeed htext]
      rcases hstart with rfl | ⟨rfl, hcomma⟩
      · rcases hsep with rfl | rfl <;> rfl
      · obtain rfl : sep = ',' := by simpa using hcomma
        rfl
    · -- the first character leads into the field
      rw [hchars] at hplain hlimit
      obtain ⟨hc, hplain⟩ := List.forall_mem_cons.mp hplain
      have hfirst : c ≠ ',' ∧ c ≠ '"' ∧ c ≠ '\r' ∧ c ≠ '\n' := by simpa [special] using hc
      have hadd : ((⟨start, [], fields⟩ : Reader).addChar c) = .ok ⟨start, [c], fields⟩ :=
        addChar_eq (by decide) start c
      have hbegin : (⟨start, [], fields⟩ : Reader).beginField c = .ok ⟨.inField, [c], fields⟩ := by
        rw [Reader.beginField, if_neg (by simp [hfirst]), if_neg hfirst.2.1, if_neg hfirst.1, hadd]
        rfl
      have hchar : (⟨start, [], fields⟩ : Reader).processChar c = .ok ⟨.inField, [c], fields⟩ := by
        rcases hstart with rfl | ⟨rfl, -⟩
        · exact hbegin
        · exact (if_neg (by simp [hfirst])).trans hbegin
      rw [List.cons_append, readRows_cons hfirst.2.2.2 (by simp), hchar]
      show readRows ⟨.inField, [c], fields⟩ _ = _
      rw [readRows_unquoted (List.cons_ne_nil _ _) hplain
          (by rw [List.length_singleton]; rw [List.length_cons] at hlimit; omega),
        readRows_cons hfeed htext, processChar_sep (.inl rfl) hsep (by rw [hchars, List.reverse_cons])]
      rfl

/-- The end of a line. -/
theorem readRows_lineEnd (fields : List String) (text : List Char) :
    readRows ⟨.eatCrnl, [], fields⟩ (splitLines ('\n' :: text)) =
      (readRows .reset (splitLines text)).map fun rows => fields.reverse :: rows :=
  readRows_newline

theorem fieldsText_ne_nil (field : String) (row : List String) : fieldsText (field :: row) ≠ [] := by
  rcases row with _ | ⟨next, row⟩
  · exact List.append_ne_nil_of_right_ne_nil _ (List.cons_ne_nil _ _)
  · exact List.append_ne_nil_of_right_ne_nil _ (List.cons_ne_nil _ _)

/-- The fields of a row. -/
theorem readRows_fields {field : String} {row : List String} {start : State}
    (hlimit : ∀ f ∈ field :: row, f.length ≤ fieldLimit)
    (hstart : start = .startField ∨ start = .startRecord ∧ field :: row ≠ [""]) (text : List Char) :
    readRows ⟨start, [], fields⟩ (splitLines (fieldsText (field :: row) ++ text)) =
      (readRows .reset (splitLines text)).map fun rows => (fields.reverse ++ field :: row) :: rows := by
  induction row generalizing field fields start with
  | nil =>
      have hfield : start = .startField ∨ start = .startRecord ∧ (field ≠ "" ∨ '\r' = ',') := by
        simpa using hstart
      rw [fieldsText, List.append_assoc]
      show readRows _ (splitLines (fieldText field ++ '\r' :: '\n' :: text)) = _
      rw [readRows_field (List.cons_ne_nil _ _) (hlimit field List.mem_cons_self) (.inr rfl) hfield]
      exact (readRows_lineEnd (field :: fields) text).trans (by rw [List.reverse_cons])
  | cons next row ih =>
      obtain ⟨hfield, hlimit⟩ := List.forall_mem_cons.mp hlimit
      have hnext := @ih (field :: fields) next .startField hlimit (.inl rfl)
      have hstart' : start = .startField ∨ start = .startRecord ∧ (field ≠ "" ∨ ',' = ',') :=
        hstart.imp id fun h => ⟨h.1, .inr rfl⟩
      have htext : fieldsText (next :: row) ++ text ≠ [] :=
        List.append_ne_nil_of_left_ne_nil (fieldsText_ne_nil next row) text
      show readRows _ (splitLines ((fieldText field ++ ',' :: fieldsText (next :: row)) ++ text)) = _
      rw [List.append_assoc, List.cons_append, readRows_field htext hfield (.inl rfl) hstart']
      refine hnext.trans ?_
      rw [List.reverse_cons, List.append_assoc, List.singleton_append]

/-- A row. -/
theorem readRows_row {row : List String} (hlimit : ∀ f ∈ row, f.length ≤ fieldLimit)
    (text : List Char) : readRows .reset (splitLines (rowText row ++ text)) =
      (readRows .reset (splitLines text)).map fun rows => row :: rows := by
  have hend (fields : List String) := readRows_lineEnd fields text
  rw [rowText]
  split_ifs with hempty
  · subst hempty
    show readRows .reset (splitLines ('"' :: '"' :: '\r' :: '\n' :: text)) = _
    rw [readRows_cons (by decide) (List.cons_ne_nil _ _)]
    show readRows ⟨.inQuotedField, [], []⟩ _ = _
    rw [readRows_cons (by decide) (List.cons_ne_nil _ _)]
    show readRows ⟨.quoteInQuotedField, [], []⟩ _ = _
    rw [readRows_cons (by decide) (List.cons_ne_nil _ _)]
    exact hend [""]
  · rcases row with _ | ⟨field, row⟩
    · show readRows .reset (splitLines ('\r' :: '\n' :: text)) = _
      rw [readRows_cons (by decide) (List.cons_ne_nil _ _)]
      exact hend []
    · exact readRows_fields hlimit (.inr ⟨rfl, hempty⟩) text

/-- The rows of a file are read back. -/
theorem reader_writer {rows : List (List String)}
    (hlimit : ∀ row ∈ rows, ∀ f ∈ row, f.length ≤ fieldLimit) : reader (writer rows) = .ok rows := by
  rw [reader]
  induction rows with
  | nil => rfl
  | cons row rows ih =>
      obtain ⟨hrow, hrows⟩ := List.forall_mem_cons.mp hlimit
      rw [writer, List.flatMap_cons, readRows_row hrow]
      show (readRows .reset (splitLines (writer rows))).map _ = _
      rw [ih hrows]
      rfl

end Reading

/-! ## The fields of the rows -/

section Fields

variable {r r' : Reader} {c : Char} {line text : List Char} {lines : List (List Char)}
  {rows : List (List String)}

/-- No field is longer than the limit. -/
structure Reader.Bounded (r : Reader) : Prop where
  field : r.field.length ≤ fieldLimit
  fields : ∀ f ∈ r.fields, f.length ≤ fieldLimit

theorem bounded_reset : Reader.reset.Bounded := ⟨Nat.zero_le _, List.forall_mem_nil _⟩

theorem Reader.Bounded.state (h : r.Bounded) (state : State) : { r with state := state }.Bounded :=
  ⟨h.field, h.fields⟩

theorem Reader.Bounded.saveField (h : r.Bounded) : r.saveField.Bounded := by
  refine ⟨Nat.zero_le _, List.forall_mem_cons.mpr ⟨?_, h.fields⟩⟩
  rw [← String.length_toList, String.toList_ofList, List.length_reverse]
  exact h.field

theorem Reader.Bounded.addChar (h : r.Bounded) (hstep : r.addChar c = .ok r') : r'.Bounded := by
  rw [Reader.addChar] at hstep
  split_ifs at hstep with hfull
  cases hstep
  exact ⟨Nat.not_le.mp hfull, h.fields⟩

/-- A character that takes the reader into a field. -/
theorem Reader.Bounded.enter (h : r.Bounded) {next : State}
    (hstep : (do let r' ← r.addChar c; return { r' with state := next }) = .ok r') :
    r'.Bounded := by
  rcases hadd : r.addChar c with e | r''
  · rw [hadd] at hstep
    cases hstep
  · rw [hadd] at hstep
    cases hstep
    exact (h.addChar hadd).state next

theorem Reader.Bounded.endRecord (h : r.Bounded) {next : State}
    (hstep : r.endRecord next = .ok r') : r'.Bounded := by
  cases hstep
  exact h.saveField.state next

theorem Reader.Bounded.beginField (h : r.Bounded) (hstep : r.beginField c = .ok r') :
    r'.Bounded := by
  rw [Reader.beginField] at hstep
  split_ifs at hstep
  · exact h.endRecord hstep
  · cases hstep
    exact h.state _
  · cases hstep
    exact h.saveField.state _
  · exact h.enter hstep

theorem Reader.Bounded.processChar (h : r.Bounded) (hstep : r.processChar c = .ok r') :
    r'.Bounded := by
  rw [Reader.processChar] at hstep
  split at hstep
  -- at the start of a record or of a field
  case h_1 =>
    split_ifs at hstep
    · cases hstep
      exact h.state _
    · exact h.beginField hstep
  case h_2 => exact h.beginField hstep
  -- inside of a field
  case h_3 =>
    split_ifs at hstep
    · exact h.endRecord hstep
    · cases hstep
      exact h.saveField.state _
    · exact h.addChar hstep
  case h_4 =>
    split_ifs at hstep
    · cases hstep
      exact h.state _
    · exact h.addChar hstep
  -- behind a quote in a quoted field
  case h_5 =>
    split_ifs at hstep
    · exact h.enter hstep
    · cases hstep
      exact h.saveField.state _
    · exact h.endRecord hstep
    · exact h.enter hstep
  -- behind a line end
  case h_6 =>
    split_ifs at hstep
    cases hstep
    exact h

theorem Reader.Bounded.processEol (h : r.Bounded) (hstep : r.processEol = .ok r') : r'.Bounded := by
  rw [Reader.processEol] at hstep
  split at hstep
  case h_1 | h_5 =>
    cases hstep
    exact h
  case h_6 =>
    cases hstep
    exact h.state _
  all_goals exact h.endRecord hstep

theorem Reader.Bounded.processLine (h : r.Bounded) (hstep : r.processLine line = .ok r') :
    r'.Bounded := by
  induction line generalizing r with
  | nil => exact h.processEol hstep
  | cons c line ih =>
      rw [Reader.processLine, List.foldlM_cons] at hstep
      rcases hchar : r.processChar c with e | r''
      · rw [hchar] at hstep
        cases hstep
      · rw [hchar] at hstep
        exact ih (h.processChar hchar) hstep

theorem length_le_of_readRows (h : r.Bounded) (hrows : readRows r lines = .ok rows) :
    ∀ row ∈ rows, ∀ f ∈ row, f.length ≤ fieldLimit := by
  induction lines generalizing r rows with
  | nil =>
      rw [readRows] at hrows
      split_ifs at hrows
      · cases hrows
        exact List.forall_mem_singleton.mpr fun f hf => h.saveField.fields f (List.mem_reverse.mp hf)
      · cases hrows
        exact List.forall_mem_nil _
  | cons line lines ih =>
      rw [readRows] at hrows
      rcases hline : r.processLine line with e | r'
      · rw [hline] at hrows
        cases hrows
      · have hbounded := h.processLine hline
        rw [hline] at hrows
        change (if r'.state = .startRecord then _ else _) = _ at hrows
        split_ifs at hrows
        · rcases hrest : readRows .reset lines with e | rest
          · rw [hrest] at hrows
            cases hrows
          · rw [hrest] at hrows
            cases hrows
            exact List.forall_mem_cons.mpr
              ⟨fun f hf => hbounded.fields f (List.mem_reverse.mp hf), ih bounded_reset hrest⟩
        · exact ih hbounded hrows

/-- No field of a row that the reader delivers is longer than the limit. -/
theorem length_le_of_reader (hrows : reader text = .ok rows) :
    ∀ row ∈ rows, ∀ f ∈ row, f.length ≤ fieldLimit :=
  length_le_of_readRows bounded_reset hrows

end Fields

end Python.Csv
