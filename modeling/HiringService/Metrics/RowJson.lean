import HiringService.Metrics.Queries
import HiringService.Python.JsonRoundTrip

/-!
# Result rows as JSON

The rows of the two queries are dictionaries of numbers and texts. What `json.dumps` writes for them,
`json.loads` reads back.
-/

namespace HiringService

open Python (Json)

/-- A value of a result row. -/
def Value.toJson : Value → Json
  | .int n => .int n
  | .str s => .str s

/-- A result row. -/
def Row.toJson (row : Row) : Json := .obj (row.map fun field => (field.1, field.2.toJson))

/-- `list[dict]`. -/
def rowsJson (rows : List Row) : Json := .arr (rows.map Row.toJson)

/-- The value of a result row that is read as this. -/
def Value.ofJson : Json → Option Value
  | .int n => some (.int n)
  | .str s => some (.str s)
  | _ => none

/-- The result row that is read as this. -/
def Row.ofJson : Json → Option Row
  | .obj fields => fields.mapM fun field => (Value.ofJson field.2).map (Prod.mk field.1)
  | _ => none

/-- The result rows that are read as this. -/
def rowsOfJson : Json → Option (List Row)
  | .arr items => items.mapM Row.ofJson
  | _ => none

theorem Value.ofJson_toJson (value : Value) : Value.ofJson value.toJson = some value := by
  cases value <;> rfl

/-- A list is read item by item. -/
theorem mapM_map_some {α β : Type} {f : β → Option α} {g : α → β} (h : ∀ a, f (g a) = some a)
    (xs : List α) : (xs.map g).mapM f = some xs := by
  induction xs with
  | nil => rfl
  | cons x xs ih => rw [List.map_cons, List.mapM_cons, h, ih]; rfl

theorem Row.ofJson_toJson (row : Row) : Row.ofJson row.toJson = some row :=
  mapM_map_some (fun field => by rw [Value.ofJson_toJson]; rfl) row

theorem rowsOfJson_rowsJson (rows : List Row) : rowsOfJson (rowsJson rows) = some rows :=
  mapM_map_some Row.ofJson_toJson rows

/-! ## Written and read back -/

/-- The columns of a row have different names. -/
def Row.IsDict (row : Row) : Prop := (row.map Prod.fst).Nodup

/-- The rows of the queries are dictionaries. -/
theorem isDict_rows (metric : Metric) (db : Db) : ∀ row ∈ metric.rows db, row.IsDict := by
  intro row hrow
  cases metric with
  | hiresByQuarter =>
      obtain ⟨r, hr, rfl⟩ := List.mem_map.mp hrow
      obtain ⟨names, -, rfl⟩ := List.mem_map.mp hr
      have hcolumns : ["department", "job", "Q1", "Q2", "Q3", "Q4"].Nodup := by decide
      exact hcolumns
  | departmentsAboveMean =>
      obtain ⟨r, -, rfl⟩ := List.mem_map.mp hrow
      have hcolumns : ["id", "department", "hired"].Nodup := by decide
      exact hcolumns

/-- A row is read back if its numbers are short enough to be written. -/
theorem Row.lossless_toJson {row : Row} (h : row.IsDict) (hrow : row.toJson.convertible = true) :
    row.toJson.lossless = true := by
  have hfields : ∀ fields : Row,
      Json.fieldsConvertible (fields.map fun field => (field.1, field.2.toJson)) = true →
      Json.fieldsLossless (fields.map fun field => (field.1, field.2.toJson)) = true := by
    intro fields hfields
    induction fields with
    | nil => rfl
    | cons field fields ih =>
        obtain ⟨hvalue, hfields⟩ := Bool.and_eq_true_iff.mp hfields
        refine Bool.and_eq_true_iff.mpr ⟨?_, ih hfields⟩
        obtain ⟨name, n | s⟩ := field
        · exact hvalue
        · rfl
  have hnames : (row.map fun field => (field.1, field.2.toJson)).map Prod.fst = row.map Prod.fst :=
    List.map_map ..
  exact Bool.and_eq_true_iff.mpr ⟨decide_eq_true (hnames ▸ h), hfields row hrow⟩

/-- The text of rows is read back as these rows. -/
theorem loads_rowsJson {rows : List Row} (h : ∀ row ∈ rows, row.IsDict) {text : String}
    (hdumps : (rowsJson rows).dumps = some text) : Json.loads text = some (rowsJson rows) := by
  have hlossless : ∀ rows : List Row, (∀ row ∈ rows, row.IsDict) →
      Json.itemsConvertible (rows.map Row.toJson) = true →
      Json.itemsLossless (rows.map Row.toJson) = true := by
    intro rows h hrows
    induction rows with
    | nil => rfl
    | cons row rows ih =>
        obtain ⟨hrow, hrows⟩ := Bool.and_eq_true_iff.mp hrows
        obtain ⟨hdict, h⟩ := List.forall_mem_cons.mp h
        exact Bool.and_eq_true_iff.mpr ⟨Row.lossless_toJson hdict hrow, ih h hrows⟩
  have hconvertible : (rowsJson rows).convertible = true := by
    by_contra hnot
    rw [Json.dumps, if_neg hnot] at hdumps
    cases hdumps
  have hrows : (rowsJson rows).lossless = true := hlossless rows h hconvertible
  obtain ⟨text', hdumps', hloads⟩ := Json.loads_of_dumps hrows
  rwa [Option.some.inj (hdumps.symm.trans hdumps')]

end HiringService
