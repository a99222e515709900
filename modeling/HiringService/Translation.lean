import HiringService.Python.Numerals
import HiringService.World

/-!
# Translated integrity errors

`translate_db_error` reads `str(exc)`: Postgres' words with the name of the constraint, a detail
with the offending value, and behind them the statement and its parameters, which SQLAlchemy
appends and which contain text of the user. The three searches are leftmost, so they stop at
Postgres' own words, except when the value is negative: `\d+` has no sign. Then the search for the
id goes on into the appended text.
-/

namespace HiringService

open Python.Re

/-- How Postgres words a violated constraint: the text before `constraint "`, between the name of
the constraint and the detail, and after the value. The words before the detail look neither like
the name of another constraint nor like another detail. -/
structure Wording where
  before : String
  between : String
  after : String
  before_constraint : ¬ "constraint \"".toList <:+: before.toList
  before_key : ¬ "Key (".toList <:+: before.toList
  between_key : ¬ "Key (".toList <:+: between.toList

namespace Wording

/-- The message of a violated constraint. -/
def message (wording : Wording) (name column value appended : String) : String :=
  wording.before ++ ("constraint \"" ++ name ++ "\"") ++ wording.between ++
    ("Key (" ++ column ++ ")=(" ++ value ++ ")") ++ (wording.after ++ appended)

/-- A duplicate primary key. -/
def duplicate : Wording where
  before := "(psycopg2.errors.UniqueViolation) duplicate key value violates unique "
  between := "\nDETAIL:  "
  after := " already exists.\n"
  before_constraint := by decide +kernel
  before_key := by decide +kernel
  between_key := by decide +kernel

/-- A foreign key of `employees` without a row in `table`. -/
def missing (table : String) : Wording where
  before := "(psycopg2.errors.ForeignKeyViolation) insert or update on table \"" ++ "employees" ++
    "\" violates foreign key "
  between := "\nDETAIL:  "
  after := " is not present in table \"" ++ table ++ "\".\n"
  before_constraint := by decide +kernel
  before_key := by decide +kernel
  between_key := by decide +kernel

/-- The message of a duplicate key has the shape of all messages. -/
theorem pkMessage_eq (key : Key) (sql : String) :
    pkMessage key sql = duplicate.message (key.table ++ "_pkey") "id" key.idText sql := by
  have hbefore : "(psycopg2.errors.UniqueViolation) duplicate key value violates unique constraint \"" =
      duplicate.before ++ "constraint \"" := by decide +kernel
  have hbetween : "_pkey\"\nDETAIL:  Key (id)=(" =
      "_pkey" ++ "\"" ++ duplicate.between ++ "Key (" ++ "id" ++ ")=(" := by decide +kernel
  have hafter : ") already exists.\n" = ")" ++ duplicate.after := by decide +kernel
  unfold pkMessage message
  rw [hbefore, hbetween, hafter]
  simp only [String.append_assoc, -String.reduceAppend]

/-- So has the message of a missing reference. -/
theorem fkMessage_eq (column : String) (target : Key) (sql : String) :
    fkMessage ⟨"employees", column, target⟩ sql =
      (missing target.table).message ("employees_" ++ column ++ "_fkey") column target.idText sql := by
  have hbefore : "\" violates foreign key constraint \"" =
      "\" violates foreign key " ++ "constraint \"" := by decide +kernel
  have hname : "employees_" = "employees" ++ "_" := by decide +kernel
  have hbetween : "_fkey\"\nDETAIL:  Key (" = "_fkey" ++ "\"" ++ "\nDETAIL:  " ++ "Key (" := by
    decide +kernel
  have hafter : ") is not present in table \"" = ")" ++ " is not present in table \"" := by
    decide +kernel
  unfold fkMessage message missing
  rw [hbefore, hname, hbetween, hafter]
  simp only [String.append_assoc, -String.reduceAppend]

/-! ## The searches -/

section Searches

variable {wording : Wording} {name column value appended : String}

/-- The detail of a message, and what follows it. -/
def detail (wording : Wording) (column value appended : String) : List Char :=
  "Key (".toList ++ (column.toList ++ (")=(".toList ++ (value.toList ++ (")".toList ++
    (wording.after ++ appended).toList))))

/-- A message from left to right, as far as the quotes and the detail. -/
theorem toList_message : (wording.message name column value appended).toList =
    wording.before.toList ++ ("constraint \"".toList ++ (name.toList ++ ("\"".toList ++
      (wording.between.toList ++ wording.detail column value appended)))) := by
  simp only [message, detail, String.toList_append, List.append_assoc]

/-- A search for a literal that begins with `Key (` gets to the detail. -/
theorem search_message {s : String} {needle : List Char} {pieces : List Piece}
    (hs : s.toList = 'K' :: needle) (hkey : "Key (".toList <+: s.toList) (hc : 'c' ∉ needle)
    (hK : 'K' ∉ needle) (hname : 'K' ∉ name.toList) :
    search (.text s :: pieces) (wording.message name column value appended).toList =
      search (.text s :: pieces) (wording.detail column value appended) := by
  have habsent : ∀ {text : List Char}, ¬ "Key (".toList <:+: text → ¬ s.toList <:+: text :=
    fun htext h => htext (hkey.isInfix.trans h)
  rw [toList_message]
  -- the parts of the message before the detail, one after the other
  calc search (.text s :: pieces) _
      = search (.text s :: pieces) _ :=
        search_append_of_absent hs (habsent wording.before_key) rfl hc
    _ = search (.text s :: pieces) _ := search_append_of_notMem hs (by decide)
    _ = search (.text s :: pieces) _ := search_append_of_notMem hs hname
    _ = search (.text s :: pieces) _ := search_append_of_notMem hs (by decide)
    _ = search (.text s :: pieces) _ :=
        search_append_of_absent hs (habsent wording.between_key) rfl hK

/-- A text that a lazy group takes as a whole, up to the character `stop`. -/
structure Plain (stop : Char) (text : String) : Prop where
  ne : text.toList ≠ []
  line : '\n' ∉ text.toList
  stop : stop ∉ text.toList

/-- A lazy group between two literals. -/
theorem takeLazily_plain {text : String} {stop : Char} {s : String} {needle tail : List Char}
    {pieces : List Piece} {b : List Char} (htext : Plain stop text) (hs : s.toList = stop :: needle)
    (hrest : matchStart pieces tail = some b) :
    takeLazily (matchStart (.text s :: pieces)) (text.toList ++ (s.toList ++ tail)) =
      some (text.toList, b) := by
  refine takeLazily_append htext.ne htext.line (fun c hc rest => ?_) ?_
  · exact matchStart_text_cons_eq_none hs fun h => htext.stop (h ▸ hc)
  · rw [matchStart_text_append, hrest]

/-- The name of the constraint is read as Postgres gives it. -/
theorem parseConstraint_message (hname : Plain '"' name) :
    parseConstraint (wording.message name column value appended) = name := by
  have hsearch : search [.text "constraint \"", .any true, .text "\""]
      (wording.message name column value appended).toList = some name.toList := by
    rw [toList_message]
    refine (search_append_of_absent rfl wording.before_constraint rfl (by decide)).trans ?_
    refine search_of_matchStart ?_
    rw [matchStart_text_append, matchStart, takeLazily_plain hname rfl rfl]
    rfl
  rw [parseConstraint, hsearch]
  exact String.ofList_toList

/-- The value of a foreign key is read from the detail. -/
theorem parseFkValue_message (hname : 'K' ∉ name.toList) (hcolumn : Plain ')' column)
    (hvalue : Plain ')' value) :
    parseFkValue (wording.message name column value appended) = value := by
  have hsearch : search [.text "Key (", .any false, .text ")=(", .any true, .text ")"]
      (wording.message name column value appended).toList = some value.toList := by
    rw [search_message rfl (List.prefix_refl _) (by decide) (by decide) hname, detail]
    refine search_of_matchStart ?_
    rw [matchStart_text_append, matchStart, takeLazily_plain hcolumn rfl]
    · rfl
    · rw [matchStart, takeLazily_plain hvalue rfl rfl]
      rfl
  rw [parseFkValue, hsearch]
  exact String.ofList_toList

end Searches

end Wording

/-! ## The id of a primary key -/

section PkId

variable {text found digits tail : List Char}

/-- The pattern of `_parse_pk_id`. -/
def idPattern : List Piece := [.text "Key (id)=(", .digits true, .text ")"]

/-- The text shows an id as a detail does: digits between `Key (id)=(` and `)`. -/
def ShowsId (text : List Char) : Prop :=
  ∃ head digits tail, text = head ++ ("Key (id)=(".toList ++ (digits ++ (")".toList ++ tail))) ∧
    digits ≠ [] ∧ ∀ c ∈ digits, (Python.digitValue c).isSome

/-- The id pattern takes the digits, and stops at the bracket. -/
theorem matchStart_idPattern (hne : digits ≠ []) (h : ∀ c ∈ digits, (Python.digitValue c).isSome) :
    matchStart idPattern ("Key (id)=(".toList ++ (digits ++ (")".toList ++ tail))) =
      some digits := by
  have hclose : matchStart [.text ")"] (")".toList ++ tail) = some [] := matchStart_text_append _ _ _
  rw [idPattern, matchStart_text_append, matchStart, takeDigits_append hne h rfl rfl hclose]
  rfl

/-- What is found are the digits of such a place. -/
theorem search_idPattern (h : search idPattern text = some found) :
    ∃ head tail, text = head ++ ("Key (id)=(".toList ++ (found ++ (")".toList ++ tail))) ∧
      found ≠ [] ∧ ∀ c ∈ found, (Python.digitValue c).isSome := by
  obtain ⟨head, rest, rfl, hrest⟩ := search_eq_some h
  obtain ⟨rest, rfl, hdigits⟩ := matchStart_text_eq_some hrest
  rw [matchStart, Option.map_eq_some_iff] at hdigits
  obtain ⟨r, htaken, rfl⟩ := hdigits
  obtain ⟨rest, rfl, hne, hall, hclose⟩ := takeDigits_eq_some htaken
  obtain ⟨tail, rfl, -⟩ := matchStart_text_eq_some hclose
  exact ⟨head, tail, rfl, hne, hall⟩

/-- The pattern is found exactly in a text that shows an id. -/
theorem search_idPattern_isSome_iff : (search idPattern text).isSome ↔ ShowsId text := by
  constructor
  · intro h
    obtain ⟨found, hfound⟩ := Option.isSome_iff_exists.mp h
    obtain ⟨head, tail, htext, hne, hall⟩ := search_idPattern hfound
    exact ⟨head, found, tail, htext, hne, hall⟩
  · rintro ⟨head, digits, tail, rfl, hne, hall⟩
    rw [Option.isSome_iff_ne_none]
    intro hnone
    have hmatch := matchStart_eq_none_of_search hnone
    rw [matchStart_idPattern hne hall] at hmatch
    cases hmatch

/-- No id in the message: -1. -/
theorem parsePkId_of_search_none {message : String} (h : search idPattern message.toList = none) :
    parsePkId message = .ok (-1) := by
  rw [idPattern] at h
  rw [parsePkId, h]

/-- An id that `int` reads. -/
theorem parsePkId_of_search_some {message : String} {z : ℤ}
    (h : search idPattern message.toList = some found)
    (hz : Python.int (String.ofList found) = some z) : parsePkId message = .ok z := by
  rw [idPattern] at h
  simp only [parsePkId, h, hz]

/-- An id that `int` refuses makes the translation itself raise. -/
theorem parsePkId_of_int_none {message : String}
    (h : search idPattern message.toList = some found)
    (hz : Python.int (String.ofList found) = none) : ∃ e, parsePkId message = .error e := by
  rw [idPattern] at h
  simp only [parsePkId, h, hz]
  exact ⟨_, rfl⟩

variable {wording : Wording} {name appended : String}

/-- The detail of a duplicate id, with what is appended to the message. -/
theorem detail_id (value : String) : wording.detail "id" value appended =
    "Key (id)=(".toList ++ (value.toList ++ (")".toList ++ (wording.after ++ appended).toList)) :=
  rfl

/-- Nothing before the detail can be taken for an id, since it has no K. -/
theorem search_idPattern_message (hname : 'K' ∉ name.toList) (value : String) :
    search idPattern (wording.message name "id" value appended).toList =
      search idPattern ("Key (id)=(".toList ++ (value.toList ++ (")".toList ++
        (wording.after ++ appended).toList))) := by
  rw [idPattern, Wording.search_message rfl (by decide) (by decide) (by decide) hname, detail_id]

/-- An id that is not negative is read from the detail. -/
theorem parsePkId_message (hname : 'K' ∉ name.toList) {n : ℕ}
    (hn : n.repr.length ≤ Python.maxStrDigits) :
    parsePkId (wording.message name "id" n.repr appended) = .ok (n : ℤ) := by
  have hdigits : ∀ c ∈ n.repr.toList, (Python.digitValue c).isSome := fun c hc => by
    rw [Python.digitValue_of_isDigit (Python.isDigit_of_mem_repr hc)]
    rfl
  have hsearch : search idPattern (wording.message name "id" n.repr appended).toList =
      some n.repr.toList := by
    rw [search_idPattern_message hname]
    exact search_of_matchStart (matchStart_idPattern (by simp) hdigits)
  exact parsePkId_of_search_some hsearch (by rw [String.ofList_toList, Python.int_repr hn])

/-- The search for a negative id goes on behind the detail. -/
theorem search_message_negative (hname : 'K' ∉ name.toList) (n : ℕ) :
    search idPattern (wording.message name "id" ("-" ++ n.repr) appended).toList =
      search idPattern (wording.after ++ appended).toList := by
  have hsign : matchStart idPattern ("Key (id)=(".toList ++ (("-" ++ n.repr).toList ++
      (")".toList ++ (wording.after ++ appended).toList))) = none := by
    rw [idPattern, matchStart_text_append, String.toList_append]
    rfl
  have hdetail : "Key (id)=(".toList ++ (("-" ++ n.repr).toList ++
      (")".toList ++ (wording.after ++ appended).toList)) =
      'K' :: (("ey (id)=(-".toList ++ (n.repr.toList ++ ")".toList)) ++
        (wording.after ++ appended).toList) := by
    rw [String.toList_append, List.append_assoc, List.append_assoc, List.append_assoc]
    rfl
  have hrest : 'K' ∉ "ey (id)=(-".toList ++ (n.repr.toList ++ ")".toList) := by
    rw [List.mem_append, List.mem_append]
    rintro (hopen | hdigit | hclose)
    · exact absurd hopen (by decide)
    · exact absurd (Python.isDigit_of_mem_repr hdigit) (by decide)
    · exact absurd hclose (by decide)
  -- `\d+` refuses the sign, and nothing else in the detail begins like the pattern
  rw [hdetail] at hsign
  rw [search_idPattern_message hname, hdetail, search_cons hsign]
  exact search_append_of_notMem rfl hrest

/-- What is found is never negative. -/
theorem nonneg_of_search {z : ℤ} (h : search idPattern text = some found)
    (hz : Python.int (String.ofList found) = some z) : 0 ≤ z := by
  obtain ⟨head, tail, -, -, hdigits⟩ := search_idPattern h
  refine Python.int_nonneg (fun hminus => ?_) hz
  rw [String.toList_ofList] at hminus
  have hsome := hdigits '-' hminus
  cases hsome

/-- A negative id is never read: what comes out is -1, or an id that the appended text shows. -/
theorem parsePkId_message_negSucc_iff (hname : 'K' ∉ name.toList) (n : ℕ) :
    parsePkId (wording.message name "id" ("-" ++ (n + 1).repr) appended) = .ok (Int.negSucc n) ↔
      Int.negSucc n = -1 ∧ ¬ ShowsId (wording.after ++ appended).toList := by
  rw [← search_idPattern_isSome_iff]
  rcases hfound : search idPattern (wording.after ++ appended).toList with _ | found
  · have hsearch := (search_message_negative hname (n + 1)).trans hfound
    rw [parsePkId_of_search_none hsearch]
    constructor
    · intro h
      exact ⟨(Except.ok.inj h).symm, by simp⟩
    · rintro ⟨hid, -⟩
      rw [hid]
  · have hsearch := (search_message_negative hname (n + 1)).trans hfound
    refine iff_of_false (fun h => ?_) fun h => h.2 rfl
    rcases hz : Python.int (String.ofList found) with _ | z
    · obtain ⟨e, he⟩ := parsePkId_of_int_none hsearch hz
      cases he.symm.trans h
    · have hread := (parsePkId_of_search_some hsearch hz).symm.trans h
      have hnonneg := nonneg_of_search hfound hz
      rw [Except.ok.inj hread] at hnonneg
      omega

end PkId

/-! ## `translate_db_error` -/

section Translate

variable {message table field : String}

/-- A primary key becomes a conflict with the id that is parsed. -/
theorem translateDbError_pkey (htable : table ∈ ["departments", "jobs", "employees"])
    (hname : parseConstraint message = table ++ "_pkey") :
    translateDbError (.integrity message) = (parsePkId message).map (Exn.recordConflict table) := by
  have hlookup : pkMap.lookup (table ++ "_pkey") = some table := by
    simp only [List.mem_cons, List.not_mem_nil, or_false] at htable
    rcases htable with rfl | rfl | rfl <;> decide
  rw [translateDbError, hname, hlookup]
  rcases parsePkId message with e | id <;> rfl

/-- A foreign key of employees becomes a missing reference with the value that is parsed. -/
theorem translateDbError_fkey (hfield : field ∈ ["department_id", "job_id"])
    (hname : parseConstraint message = "employees_" ++ field ++ "_fkey") :
    translateDbError (.integrity message) =
      .ok (.recordForeignKey field (parseFkValue message)) := by
  have hlookups : pkMap.lookup ("employees_" ++ field ++ "_fkey") = none ∧
      fkMap.lookup ("employees_" ++ field ++ "_fkey") = some field := by
    simp only [List.mem_cons, List.not_mem_nil, or_false] at hfield
    rcases hfield with rfl | rfl <;> decide
  rw [translateDbError, hname, hlookups.1, hlookups.2]

/-- The names of the primary keys have no quotes, and no K. -/
theorem plain_pkey (htable : table ∈ ["departments", "jobs", "employees"]) :
    Wording.Plain '"' (table ++ "_pkey") ∧ 'K' ∉ (table ++ "_pkey").toList := by
  simp only [List.mem_cons, List.not_mem_nil, or_false] at htable
  rcases htable with rfl | rfl | rfl
  all_goals exact ⟨⟨by decide, by decide, by decide⟩, by decide⟩

/-- The names of the foreign keys have no quotes and no K, and their columns no bracket. -/
theorem plain_fkey (hfield : field ∈ ["department_id", "job_id"]) :
    (Wording.Plain '"' ("employees_" ++ field ++ "_fkey") ∧
      'K' ∉ ("employees_" ++ field ++ "_fkey").toList) ∧ Wording.Plain ')' field := by
  simp only [List.mem_cons, List.not_mem_nil, or_false] at hfield
  rcases hfield with rfl | rfl
  all_goals exact ⟨⟨⟨by decide, by decide, by decide⟩, by decide⟩, ⟨by decide, by decide, by decide⟩⟩

/-- A numeral consists of digits and perhaps a sign. -/
theorem plain_toString (value : ℤ) : Wording.Plain ')' (toString value) := by
  have hchars : ∀ c ∈ (toString value).toList, c = '-' ∨ c.isDigit := by
    intro c hc
    rcases value with n | n
    · exact Or.inr (Python.isDigit_of_mem_repr hc)
    · change c ∈ ("-" ++ (n + 1).repr).toList at hc
      rw [String.toList_append] at hc
      rcases List.mem_append.mp hc with hsign | hdigit
      · exact Or.inl (List.mem_singleton.mp hsign)
      · exact Or.inr (Python.isDigit_of_mem_repr hdigit)
  refine ⟨?_, fun h => ?_, fun h => ?_⟩
  · rcases value with n | n
    · show n.repr.toList ≠ []
      simp
    · show ("-" ++ (n + 1).repr).toList ≠ []
      simp
  · exact absurd (hchars _ h) (by decide)
  · exact absurd (hchars _ h) (by decide)

end Translate

/-- Whatever statement and parameters are appended, a foreign key violation is translated to the
field and the value, and a primary key violation to the table and the id exactly if the id is not
negative; for -1 the default of the search is right, unless the appended text shows another id. -/
theorem translateDbError_faithful_iff (wording : Wording) (appended : String) :
    (∀ table ∈ ["departments", "jobs", "employees"], ∀ id : ℤ, storableInt id →
      (translateDbError (.integrity
          (wording.message (table ++ "_pkey") "id" (toString id) appended)) =
        .ok (.recordConflict table id) ↔
          0 ≤ id ∨ (id = -1 ∧ ¬ ShowsId (wording.after ++ appended).toList))) ∧
    ∀ field ∈ ["department_id", "job_id"], ∀ value : ℤ,
      translateDbError (.integrity
          (wording.message ("employees_" ++ field ++ "_fkey") field (toString value) appended)) =
        .ok (.recordForeignKey field (toString value)) := by
  constructor
  · intro table htable id hid
    obtain ⟨hplain, hname⟩ := plain_pkey htable
    rw [translateDbError_pkey htable (Wording.parseConstraint_message hplain)]
    rcases id with n | n
    · -- an id from 0 on is found, and has few enough digits for `int`
      have hlength : n.repr.length ≤ Python.maxStrDigits := by
        have hmax : Int.ofNat n ≤ 2147483647 := hid.2
        rw [Int.ofNat_eq_natCast] at hmax
        have hshort : n.repr.length ≤ 10 := (Python.length_repr_le_iff (by decide)).mpr (by omega)
        exact hshort.trans (by decide)
      refine iff_of_true ?_ (Or.inl (Int.natCast_nonneg n))
      show (parsePkId (wording.message _ "id" n.repr appended)).map _ = _
      rw [parsePkId_message hname hlength]
      rfl
    · -- a negative id is never found in the detail, only behind it
      have hnegative : ¬ 0 ≤ Int.negSucc n := by omega
      rw [or_iff_right hnegative, ← parsePkId_message_negSucc_iff hname]
      show (parsePkId (wording.message _ "id" ("-" ++ (n + 1).repr) appended)).map _ = _ ↔ _
      rcases parsePkId (wording.message _ "id" ("-" ++ (n + 1).repr) appended) with e | found
      · exact iff_of_false (fun h => by cases h) fun h => by cases h
      · constructor
        · intro h
          rw [(Exn.recordConflict.inj (Except.ok.inj h)).2]
        · intro h
          rw [h]
          rfl
  · intro field hfield value
    obtain ⟨⟨hplain, hname⟩, hcolumn⟩ := plain_fkey hfield
    rw [translateDbError_fkey hfield (Wording.parseConstraint_message hplain),
      Wording.parseFkValue_message hname hcolumn (plain_toString value)]

theorem translateDbError_faithful_iff_sample :
    translateDbError (.integrity (pkMessage (.reference .departments 7)
      "[parameters: \x7b'id': 7, 'department': 'Key (id)=(1)'\x7d]")) =
        .ok (.recordConflict "departments" 7) ∧
    translateDbError (.integrity (fkMessage ⟨"employees", "job_id", .reference .jobs (-9)⟩
      "[parameters: \x7b'id': 1, 'name': 'Key (job_id)=(1)'\x7d]")) =
        .ok (.recordForeignKey "job_id" "-9") := by
  rw [Wording.pkMessage_eq, Wording.fkMessage_eq]
  constructor
  · exact ((translateDbError_faithful_iff _ _).1 "departments" (by decide) 7 (by decide)).mpr
      (Or.inl (by decide))
  · exact (translateDbError_faithful_iff _ _).2 "job_id" (by decide) (-9)

/-- Inserting a department with the id -5 that exists: the id is reported as -1, and with the name
`Key (id)=(7)` as 7. -/
theorem negative_id_is_misread :
    translateDbError (.integrity (pkMessage (.reference .departments (-5))
      "[parameters: \x7b'id': -5, 'department': 'Sales'\x7d]")) =
        .ok (.recordConflict "departments" (-1)) ∧
    translateDbError (.integrity (pkMessage (.reference .departments (-5))
      "[parameters: \x7b'id': -5, 'department': 'Key (id)=(7)'\x7d]")) =
        .ok (.recordConflict "departments" 7) ∧
    ¬ ∀ (wording : Wording) (appended : String),
      ∀ table ∈ ["departments", "jobs", "employees"], ∀ id : ℤ, storableInt id →
        translateDbError (.integrity
          (wording.message (table ++ "_pkey") "id" (toString id) appended)) =
            .ok (.recordConflict table id) := by
  have hmisread : translateDbError (.integrity (pkMessage (.reference .departments (-5))
      "[parameters: \x7b'id': -5, 'department': 'Sales'\x7d]")) =
        .ok (.recordConflict "departments" (-1)) := by decide +kernel
  refine ⟨hmisread, by decide +kernel, fun hall => ?_⟩
  have hread := hall Wording.duplicate "[parameters: \x7b'id': -5, 'department': 'Sales'\x7d]"
    "departments" (by decide) (-5) (by decide)
  rw [Wording.pkMessage_eq] at hmisread
  cases hmisread.symm.trans hread

end HiringService
