import HiringService.CsvParser
import HiringService.Python.CsvErrors
import HiringService.Python.Utf8

/-!
# Which files the parsers account for

The loop of a parser gives one record or one error entry for every row that the reader delivers. But
decoding the file and advancing the reader lie outside the `try` of the loop, so one undecodable
byte, one stray carriage return or one field over the limit makes the parser raise and lose all
rows.
-/

namespace HiringService

section

variable {α : Type}

/-- The numbers of the rows that are not converted, with the first row as number `i`. -/
def invalidRows (convert : List String → Option α) (i : ℕ) (rows : List (List String)) : List ℕ :=
  ((rows.zipIdx i).filter fun row => (convert row.1).isNone).map Prod.snd

theorem invalidRows_cons (convert : List String → Option α) (i : ℕ) (row : List String)
    (rows : List (List String)) : invalidRows convert i (row :: rows) =
      (if (convert row).isNone then [i] else []) ++ invalidRows convert (i + 1) rows := by
  rw [invalidRows, List.zipIdx_cons, List.filter_cons]
  by_cases hnone : (convert row).isNone
  · rw [if_pos hnone, if_pos hnone]
    rfl
  · rw [if_neg hnone, if_neg hnone]
    rfl

/-- The loop converts the rows that can be converted and names the others, in file order. -/
theorem parseRows_eq (convert : List String → Option α) (i : ℕ) (rows : List (List String)) :
    parseRows convert i rows =
      (rows.filterMap convert, (invalidRows convert i rows).map rowError) := by
  induction rows generalizing i with
  | nil => rfl
  | cons row rows ih =>
      rw [parseRows, ih, invalidRows_cons]
      rcases hconvert : convert row with _ | record
      · rw [List.filterMap_cons_none hconvert]
        rfl
      · rw [List.filterMap_cons_some hconvert]
        rfl

/-- The parser returns, and every row of the file gives one record or, with its number, one error
entry, both in file order. -/
def Isolates (parser : Bytes → Except Exn (List α × List String))
    (convert : List String → Option α) (raw : Bytes) : Prop :=
  ∃ rows, readFile raw = .ok rows ∧
    parser raw = .ok (rows.filterMap convert, (invalidRows convert 1 rows).map rowError)

/-- The file is UTF-8 text in which no carriage return is stray and no field is too long. -/
def Readable (raw : Bytes) : Prop :=
  ∃ text, raw = Python.encode text ∧ ¬ Python.Csv.StrayReturn text ∧ ¬ Python.Csv.LongField text

theorem readFile_ok_iff (raw : Bytes) : (∃ rows, readFile raw = .ok rows) ↔ Readable raw := by
  rw [readFile]
  rcases htext : Python.decode raw with _ | text
  · refine iff_of_false nofun ?_
    rintro ⟨text, hraw, -⟩
    rw [Python.decode_eq_some_iff.mpr hraw] at htext
    cases htext
  · have hraw : ∀ text', raw = Python.encode text' ↔ text = text' := fun text' => by
      rw [← Python.decode_eq_some_iff, htext, Option.some_inj]
    have hreadable : Readable raw ↔
        ¬ Python.Csv.StrayReturn text ∧ ¬ Python.Csv.LongField text := by
      simp only [Readable, hraw, exists_eq_left']
    rw [hreadable, ← Python.Csv.reader_ok_iff]
    show (∃ rows, (Python.Csv.reader text).mapError Exn.csv = .ok rows) ↔ _
    rcases Python.Csv.reader text with e | rows
    · exact iff_of_false nofun nofun
    · exact iff_of_true ⟨rows, rfl⟩ ⟨rows, rfl⟩

theorem parseFile_isolates_iff (convert : List String → Option α) (raw : Bytes) :
    Isolates (parseFile convert) convert raw ↔ Readable raw := by
  rw [← readFile_ok_iff]
  constructor
  · rintro ⟨rows, hrows, -⟩
    exact ⟨rows, hrows⟩
  · rintro ⟨rows, hrows⟩
    refine ⟨rows, hrows, ?_⟩
    rw [parseFile, hrows, ← parseRows_eq]
    rfl

end

/-- The parsers account for every row of a file exactly when it is UTF-8 text without a stray
carriage return and without a field over the limit. -/
theorem parsers_isolate_rows_iff (raw : Bytes) :
    (Isolates parseDepartments referenceOfRow raw ↔ Readable raw) ∧
      (Isolates parseJobs referenceOfRow raw ↔ Readable raw) ∧
      (Isolates parseEmployees employeeOfRow raw ↔ Readable raw) :=
  ⟨parseFile_isolates_iff _ raw, parseFile_isolates_iff _ raw, parseFile_isolates_iff _ raw⟩

/-- A byte that is not UTF-8 in the second of two rows makes the parser raise and lose the first; so
does a carriage return in the second row. -/
theorem parsers_lose_rows :
    parseDepartments [49, 44, 65, 10, 50, 44, 255] = .error .unicodeDecode ∧
      parseDepartments [49, 44, 65, 10, 50, 44, 66, 13, 67] = .error (.csv .newLineInUnquotedField) ∧
      ¬ ∀ raw, Isolates parseDepartments referenceOfRow raw := by
  have hraises : parseDepartments [49, 44, 65, 10, 50, 44, 255] = .error .unicodeDecode := rfl
  refine ⟨hraises, rfl, fun hall => ?_⟩
  obtain ⟨rows, -, hparse⟩ := hall [49, 44, 65, 10, 50, 44, 255]
  rw [hraises] at hparse
  cases hparse

end HiringService
