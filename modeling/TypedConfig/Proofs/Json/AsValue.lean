import TypedConfig.Proofs.Decimal.OneForm
import TypedConfig.Proofs.Lookup
import TypedConfig.Proofs.Steps

/-!
# Documents as values

A document that is taken as a value, nothing in it being parsed, has the same parts
(`Value.descend?_ofJson`, `Value.reach?_ofJson`). It is written as it was unless there is a whole
number in it that fits no signed word and is rounded to a double (`Value.toJson_ofJson`). A scalar
has the same text as a document and as a value under the same condition, if it is no double with two
written forms (`Value.text_ofJson`).
-/

namespace TypedConfig

/-- A document is, or has somewhere within it, another one. -/
inductive Json.Contains : Json → Json → Prop
  | refl (j : Json) : Contains j j
  | item {items : List Json} {j j' : Json} (hj : j ∈ items) (h : Contains j j') :
    Contains (.array items) j'
  | entry {entries : List (String × Json)} {e : String × Json} {j' : Json} (he : e ∈ entries)
    (h : Contains e.2 j') : Contains (.object entries) j'

namespace Json

variable {j : Json}

@[simp] theorem contains_null : null.Contains j ↔ j = null :=
  ⟨fun h => by cases h; rfl, fun h => h ▸ .refl _⟩

@[simp] theorem contains_bool {b : Bool} : (bool b).Contains j ↔ j = bool b :=
  ⟨fun h => by cases h; rfl, fun h => h ▸ .refl _⟩

@[simp] theorem contains_number {n : Number} : (number n).Contains j ↔ j = number n :=
  ⟨fun h => by cases h; rfl, fun h => h ▸ .refl _⟩

@[simp] theorem contains_string {s : String} : (string s).Contains j ↔ j = string s :=
  ⟨fun h => by cases h; rfl, fun h => h ▸ .refl _⟩

@[simp] theorem contains_array {items : List Json} :
    (array items).Contains j ↔ j = array items ∨ ∃ i ∈ items, i.Contains j := by
  constructor
  · intro h
    cases h with
    | refl => exact .inl rfl
    | item hi h => exact .inr ⟨_, hi, h⟩
  · rintro (rfl | ⟨i, hi, h⟩)
    · exact .refl _
    · exact .item hi h

@[simp] theorem contains_object {entries : List (String × Json)} :
    (object entries).Contains j ↔ j = object entries ∨ ∃ e ∈ entries, e.2.Contains j := by
  constructor
  · intro h
    cases h with
    | refl => exact .inl rfl
    | entry he h => exact .inr ⟨_, he, h⟩
  · rintro (rfl | ⟨e, he, h⟩)
    · exact .refl _
    · exact .entry he h

end Json

/-- A value is, or has somewhere within it, another one. -/
inductive Value.Contains : Value → Value → Prop
  | refl (v : Value) : Contains v v
  | item {items : List Value} {v w : Value} (hv : v ∈ items) (h : Contains v w) :
    Contains (.list items) w
  | entry {entries : List (String × Value)} {e : String × Value} {w : Value} (he : e ∈ entries)
    (h : Contains e.2 w) : Contains (.dict entries) w

namespace Value

/-! ### Parts -/

theorem toJsonItems_eq_map (vs : List Value) : toJsonItems vs = vs.map toJson := by
  induction vs with
  | nil => rfl
  | cons v vs ih => rw [toJsonItems, ih, List.map_cons]

theorem toJsonEntries_eq_map (vs : List (String × Value)) :
    toJsonEntries vs = vs.map fun e => (e.1, e.2.toJson) := by
  induction vs with
  | nil => rfl
  | cons e vs ih => rw [toJsonEntries, ih, List.map_cons]

theorem ofJsonItems_eq_map (js : List Json) : ofJsonItems js = js.map ofJson := by
  induction js with
  | nil => rfl
  | cons j js ih => rw [ofJsonItems, ih, List.map_cons]

theorem ofJsonEntries_eq_map (js : List (String × Json)) :
    ofJsonEntries js = js.map fun e => (e.1, ofJson e.2) := by
  induction js with
  | nil => rfl
  | cons e js ih => rw [ofJsonEntries, ih, List.map_cons]

theorem contains_ofJson {j j' : Json} (h : j.Contains j') : (ofJson j).Contains (ofJson j') := by
  induction h with
  | refl => exact .refl _
  | item hj _ ih =>
    rw [ofJson, ofJsonItems_eq_map]
    exact .item (List.mem_map_of_mem hj) ih
  | entry he _ ih =>
    rw [ofJson, ofJsonEntries_eq_map]
    exact .entry (List.mem_map_of_mem he) ih

theorem child?_ofJson (j : Json) (part : String) :
    (ofJson j).child? part = (j.child? part).map ofJson := by
  cases j with
  | array items =>
    rw [ofJson, ofJsonItems_eq_map, child?, Json.child?]
    cases Text.index? part with
    | none => rfl
    | some i => simp
  | object entries =>
    rw [ofJson, ofJsonEntries_eq_map]
    exact lookup_map_snd ofJson entries part
  | number n =>
    rw [ofJson, ofNumber]
    cases n.toInt64? <;> rfl
  | _ => rfl

theorem step?_ofJson (j : Json) (s : Segment) : (ofJson j).step? s = (j.step? s).map ofJson := by
  cases j with
  | array items =>
    rw [ofJson, ofJsonItems_eq_map]
    cases s with
    | key k => rfl
    | index i => simp [step?, Json.step?]
  | object entries =>
    rw [ofJson, ofJsonEntries_eq_map]
    cases s with
    | key k => exact lookup_map_snd ofJson entries k
    | index i => rfl
  | number n =>
    rw [ofJson, ofNumber]
    cases n.toInt64? <;> cases s <;> rfl
  | _ => cases s <;> rfl

/-- Steps lead to the same in a document and in its value. -/
theorem reach?_ofJson (j : Json) (steps : List Segment) :
    (ofJson j).reach? steps = (j.reach? steps).map ofJson := by
  induction steps generalizing j with
  | nil => rfl
  | cons s steps ih =>
    rw [reach?, Json.reach?, step?_ofJson]
    cases j.step? s with
    | none => rfl
    | some c => exact ih c

/-- Parts lead to the same in a document and in its value. -/
theorem descend?_ofJson (j : Json) (parts : List String) :
    (ofJson j).descend? parts = (j.descend? parts).map ofJson := by
  induction parts generalizing j with
  | nil => rfl
  | cons part parts ih =>
    rw [descend?, Json.descend?, child?_ofJson]
    cases j.child? part with
    | none => rfl
    | some c => exact ih c

end Value

/-! ### Texts -/

/-- The whole numbers in a document fit signed words. -/
def Json.HasSmallNumbers (j : Json) : Prop :=
  ∀ n h, j.Contains (.number (.whole n h)) → n < 9223372036854775808

/-- A document that has the same text as a value: its whole numbers fit signed words, and if it is a
double, the double has one written form. -/
structure Json.HasOneText (j : Json) : Prop where
  small : j.HasSmallNumbers
  double : ∀ x h, j = .number (.double x h) → Decimal.HasOneForm x

theorem Json.hasOneText_double {x : Float} {hx : x.isFinite = true} (h : Decimal.HasOneForm x) :
    (Json.number (.double x hx)).HasOneText := by
  refine ⟨fun n hn hmem => ?_, fun x hx heq => ?_⟩
  · cases hmem
  · cases heq
    exact h

namespace Value

theorem exists_ofNumber_whole {n : Int} (h) (hn : n < 9223372036854775808) :
    ∃ i : Int64, ofNumber (.whole n h) = integer i ∧ i.toInt = n := by
  have hword : Text.signedWord? n = some (Int64.ofInt n) := if_pos ⟨h.1, hn⟩
  refine ⟨Int64.ofInt n, ?_, Text.toInt_of_signedWord? hword⟩
  rw [ofNumber, Json.Number.toInt64?, hword]

theorem toJson_ofNumber {n : Json.Number} (h : (Json.number n).HasSmallNumbers) :
    (ofNumber n).toJson = .number n := by
  cases n with
  | whole n hn =>
    obtain ⟨i, hi, rfl⟩ := exists_ofNumber_whole hn (h n hn (.refl _))
    rw [hi]
    rfl
  | double x hx => exact dif_pos hx

mutual

theorem toJson_ofJson : ∀ j : Json, j.HasSmallNumbers → (ofJson j).toJson = j
  | .null, _ | .bool _, _ | .string _, _ => rfl
  | .number _, h => toJson_ofNumber h
  | .array items, h => by
    rw [ofJson, toJson, toJsonItems_ofJsonItems items fun j hj n hn hc => h n hn (.item hj hc)]
  | .object entries, h => by
    rw [ofJson, toJson, toJsonEntries_ofJsonEntries entries fun e he n hn hc =>
      h n hn (.entry he hc)]

theorem toJsonItems_ofJsonItems : ∀ items : List Json, (∀ j ∈ items, j.HasSmallNumbers) →
    toJsonItems (ofJsonItems items) = items
  | [], _ => rfl
  | j :: items, h => by
    obtain ⟨hj, h⟩ := List.forall_mem_cons.1 h
    rw [ofJsonItems, toJsonItems, toJson_ofJson j hj, toJsonItems_ofJsonItems items h]

theorem toJsonEntries_ofJsonEntries : ∀ entries : List (String × Json),
    (∀ e ∈ entries, e.2.HasSmallNumbers) → toJsonEntries (ofJsonEntries entries) = entries
  | [], _ => rfl
  | (k, j) :: entries, h => by
    obtain ⟨hj, h⟩ := List.forall_mem_cons.1 h
    rw [ofJsonEntries, toJsonEntries, toJson_ofJson j hj, toJsonEntries_ofJsonEntries entries h]

end

theorem text_ofJson {j : Json} (h : j.HasOneText) : (ofJson j).text = j.scalarText := by
  cases j with
  | number n =>
    cases n with
    | whole n hn =>
      obtain ⟨i, hi, rfl⟩ := exists_ofNumber_whole hn (h.small n hn (.refl _))
      rw [ofJson, hi]
      rfl
    | double x hx => exact Decimal.pointedText_eq_jsonText hx (h.double x hx rfl)
  | array items => exact congrArg Json.compact (toJson_ofJson (.array items) h.small)
  | object entries => exact congrArg Json.compact (toJson_ofJson (.object entries) h.small)
  | _ => rfl

end Value
end TypedConfig
