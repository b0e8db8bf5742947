import TypedConfig.Proofs.Calendar.LeapSecond
import TypedConfig.Proofs.DateExpr.Written
import TypedConfig.Proofs.Expression.WrittenNumber
import TypedConfig.Proofs.Resolution.Plain

/-!
# Written scalars

A value of a scalar type is written as a plain scalar that its parser reads as the value
(`LeafType.restores_of_kind`): an integer as its numeral, a double as an expression, a date or a
datetime in its ISO form. It takes a string in which no reference opens, a double that reads back
and a datetime whose leap second ends a minute. Parsed datetimes are such
(`Value.isWritable_of_builtin`), as are those of defaults. What stands where anything may is written
as it was, or as a number of the same value (`LeafType.restores_any`).
-/

namespace TypedConfig

open Expression (Arithmetic.ReadsBack)

/-- The document of a value is a plain scalar, and it is read as the value. -/
structure LeafType.Restores (type : LeafType) (v : Value) : Prop where
  isScalar : v.toJson.isScalar = true
  plain : v.toJson.Plain
  reads : type.Reads v.toJson v

/-- A double is finite and its digits read back. -/
def IsWritableFloat (x : Float) : Prop := x.isFinite = true ∧ Arithmetic.ReadsBack x

/-- The written form of a value says all there is to it. -/
def Value.IsWritable : Value → Prop
  | .float x => IsWritableFloat x
  | .string s => Template.hasOpening s.toList = false
  | .dateTime t => t.time.IsProper
  | _ => True

/-! ### Parsers -/

namespace LeafParser

theorem integer_numeral (n : Int64) : integer (Text.numeral n.toInt) = .ok (.integer n) := by
  rw [integer, Text.int64?_numeral]

theorem float_jsonText {x : Float} (hx : IsWritableFloat x) :
    float (Decimal.jsonText x) = .ok (.float x) := by
  rw [float, Expression.Arithmetic.evaluate_jsonText hx.1 hx.2]
  rfl

theorem boolean_compact (b : Bool) : boolean (Json.bool b).compact = .ok (.bool b) := by
  cases b <;> cbv

theorem date_text (d : Calendar.Date) : date d.text = .ok (.date d) := by
  rw [date, DateExpr.parseDate_text]
  rfl

theorem dateTime_text (t : Calendar.DateTime) :
    dateTime t.text = .ok (.dateTime ⟨t.date, t.time.asWritten⟩) := by
  rw [dateTime, DateExpr.parseDateTime_text]
  rfl

theorem isProper_of_dateTime {text : String} {t : Calendar.DateTime}
    (h : dateTime text = .ok (.dateTime t)) : t.time.IsProper := by
  obtain ⟨t', ht', h⟩ := bind_eq_ok.1 h
  cases h
  exact DateExpr.isProper_of_parseDateTime ht'

theorem dateTime_text_eq_ok_iff {t : Calendar.DateTime} :
    dateTime t.text = .ok (.dateTime t) ↔ t.time.IsProper :=
  ⟨isProper_of_dateTime, fun ht => by rw [dateTime_text, ht.asWritten_eq]⟩

end LeafParser

/-! ### Scalar types -/

theorem Calendar.IsWritten.ne_dollar {c : Char} (h : Calendar.IsWritten c) : c ≠ '$' := by
  rintro rfl
  rcases h with h | h
  · cases h
  · revert h
    decide

theorem Json.plain_string_of_isWritten {s : String} (h : ∀ c ∈ s.toList, Calendar.IsWritten c) :
    (Json.string s).Plain :=
  .string (Template.hasOpening_of_not_mem fun hmem => (h _ hmem).ne_dollar rfl)

theorem ScalarType.eq_of_kind_eq {type type' : ScalarType} (h : type.kind = type'.kind) :
    type = type' := by
  cases type <;> cases type' <;> first | rfl | cases h

theorem LeafType.restores_of_kind {type : ScalarType} {v : Value} (hkind : v.kind = type.kind)
    (hv : v.IsWritable) : Restores (.scalar type) v := by
  cases v with
  | null | list | dict => cases type <;> cases hkind
  | bool b =>
    obtain rfl : .boolean = type := ScalarType.eq_of_kind_eq hkind
    exact ⟨rfl, .bool b, fun _ => LeafParser.boolean_compact b⟩
  | integer n =>
    obtain rfl : .integer = type := ScalarType.eq_of_kind_eq hkind
    exact ⟨rfl, .number _, fun _ => LeafParser.integer_numeral n⟩
  | float x =>
    obtain rfl : .float = type := ScalarType.eq_of_kind_eq hkind
    have hjson : (Value.float x).toJson = .number (.double x hv.1) := dif_pos hv.1
    refine ⟨by rw [hjson]; rfl, by rw [hjson]; exact .number _, ?_⟩
    rw [hjson]
    exact fun _ => LeafParser.float_jsonText hv
  | string s =>
    obtain rfl : .string = type := ScalarType.eq_of_kind_eq hkind
    exact ⟨rfl, .string hv, fun _ => rfl⟩
  | date d =>
    obtain rfl : .date = type := ScalarType.eq_of_kind_eq hkind
    refine ⟨rfl, Json.plain_string_of_isWritten fun c hc => ?_, fun _ => LeafParser.date_text d⟩
    rw [Calendar.Date.text, String.toList_ofList] at hc
    exact Calendar.Date.isWritten_of_mem_chars hc
  | dateTime t =>
    obtain rfl : .dateTime = type := ScalarType.eq_of_kind_eq hkind
    refine ⟨rfl, Json.plain_string_of_isWritten fun c hc => ?_,
      fun _ => LeafParser.dateTime_text_eq_ok_iff.2 hv⟩
    rw [Calendar.DateTime.toList_text] at hc
    exact Calendar.DateTime.isWritten_of_mem_chars hc

/-! ### Values that are read -/

variable {raw : Json} {v : Value}

theorem Json.Number.not_mem_text (n : Json.Number) : '$' ∉ n.text.toList := by
  intro h
  cases n with
  | whole n inRange =>
    rcases Text.mem_numeral h with h | h
    · revert h
      decide
    · cases h
  | double x finite =>
    rcases Expression.Arithmetic.isNumeric_of_mem_jsonText finite h with h | h
    · cases h
    · revert h
      decide

theorem Json.hasOpening_scalarText (hscalar : raw.isScalar = true) (hraw : raw.Plain) :
    Template.hasOpening raw.scalarText.toList = false := by
  cases hraw with
  | null | array | object => cases hscalar
  | bool b => cases b <;> decide
  | string h => exact h
  | number n => exact Template.hasOpening_of_not_mem n.not_mem_text

theorem Value.isWritable_of_builtin {type : ScalarType} (hscalar : raw.isScalar = true)
    (hraw : raw.Plain) (hfloat : ∀ x, v = .float x → IsWritableFloat x)
    (h : LeafParser.builtin (.scalar type) raw.scalarText = .ok v) : v.IsWritable := by
  have hkind := LeafParser.kind_of_builtin h
  cases v with
  | float x => exact hfloat x rfl
  | string s =>
    obtain rfl : .string = type := ScalarType.eq_of_kind_eq hkind
    cases h
    exact Json.hasOpening_scalarText hscalar hraw
  | dateTime t =>
    obtain rfl : .dateTime = type := ScalarType.eq_of_kind_eq hkind
    exact LeafParser.isProper_of_dateTime h
  | _ => trivial

theorem LeafType.restores_any (hscalar : raw.isScalar = true) (hraw : raw.Plain)
    (hfloat : ∀ x, Value.ofJson raw = .float x → x.isFinite = true) :
    Restores .any (.ofJson raw) := by
  cases hraw with
  | null | array | object => cases hscalar
  | bool b => exact ⟨rfl, .bool b, fun _ => rfl⟩
  | string h => exact ⟨rfl, .string h, fun _ => rfl⟩
  | number n =>
    rw [Value.ofJson, Value.ofNumber] at hfloat ⊢
    cases hn : n.toInt64? with
    | some i =>
      refine ⟨rfl, .number _, fun _ => ?_⟩
      simp [Value.toJson, Value.ofJson, Value.ofNumber, Value.numberOfInt64, Json.Number.toInt64?]
    | none =>
      have hfinite : n.toFloat.isFinite = true := hfloat _ (by rw [hn])
      have hjson : (Value.float n.toFloat).toJson = .number (.double n.toFloat hfinite) :=
        dif_pos hfinite
      exact ⟨by simp only [hjson]; rfl, by simp only [hjson]; exact .number _,
        fun _ => by simp only [hjson]; rfl⟩

theorem LeafType.restores_of_reads {type : LeafType} (hscalar : raw.isScalar = true)
    (hraw : raw.Plain) (hfloat : ∀ x, v = .float x → IsWritableFloat x) (hv : type.Reads raw v) :
    type.Restores v := by
  cases type with
  | any =>
    obtain rfl : v = .ofJson raw := hv hraw
    exact restores_any hscalar hraw fun x hx => (hfloat x hx).1
  | scalar type =>
    have hv : LeafParser.builtin (.scalar type) raw.scalarText = .ok v := hv hraw
    exact restores_of_kind (LeafParser.kind_of_builtin hv)
      (Value.isWritable_of_builtin hscalar hraw hfloat hv)

end TypedConfig
