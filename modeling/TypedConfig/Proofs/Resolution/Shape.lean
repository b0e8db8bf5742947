import TypedConfig.Proofs.Resolution.Solution
import TypedConfig.Proofs.Tree.Origins

/-!
# The shape of what is resolved

With the parsers that the types have by themselves, a configuration resolves to a value that fits it
under the schema, scalars having the types that are declared for them
(`Resolver.fits_of_resolve_eq_ok`). It does so whatever refers to what, because each leaf has the
value of its own equation. Null stands only where the configuration has null and may have it
(`Schema.fits_null_iff`).
-/

namespace TypedConfig

/-- What may stand for a scalar of a configuration. A value of a scalar type has its kind. Where
anything may stand, a text stands for a text, and another scalar is what it is. -/
inductive LeafType.Admits : LeafType → Json → Value → Prop
  | scalar {type : ScalarType} {raw : Json} {v : Value} (h : v.kind = type.kind) :
    Admits (.scalar type) raw v
  | text (s t : String) : Admits .any (.string s) (.string t)
  | same {raw : Json} (h : ∀ s, raw ≠ .string s) : Admits .any raw (.ofJson raw)

theorem ScalarType.kind_ne_null (type : ScalarType) : type.kind ≠ .null := by cases type <;> decide

theorem Value.kind_ofNumber (n : Json.Number) : (ofNumber n).kind ≠ .null := by
  unfold ofNumber
  split <;> simp [kind]

theorem LeafType.Admits.kind_ne_null {type : LeafType} {raw : Json} {v : Value}
    (h : type.Admits raw v) (hraw : raw.isScalar = true) : v.kind ≠ .null := by
  cases h with
  | scalar h => rw [h]; exact ScalarType.kind_ne_null _
  | text => simp [Value.kind]
  | same h =>
    cases raw with
    | bool b => simp [Value.ofJson, Value.kind]
    | number n => exact Value.kind_ofNumber n
    | string s => exact absurd rfl (h s)
    | _ => cases hraw

theorem Container.kind_ne_null (container : Container) : container.kind ≠ .null := by
  cases container <;> decide

theorem Schema.fits_null_iff {schema : Schema} {raw : Json} :
    schema.Fits LeafType.Admits raw .null ↔ raw = .null ∧ schema.isNullable = true := by
  constructor
  · intro h
    cases h with
    | null hs => exact ⟨rfl, hs⟩
    | leaf _ hraw hv => exact absurd rfl (hv.kind_ne_null hraw)
    | «alias» _ _ hv => exact absurd hv.symm (Container.kind_ne_null _)
  · rintro ⟨rfl, hs⟩
    exact .null hs

/-! ### Values of equations -/

theorem LeafParser.kind_of_builtin {type : ScalarType} {text : String} {v : Value}
    (h : builtin (.scalar type) text = .ok v) : v.kind = type.kind := by
  cases type with
  | string => cases h; rfl
  | integer =>
    change integer text = .ok v at h
    unfold integer at h
    split at h
    · cases h; rfl
    · obtain ⟨_, -, h⟩ := bind_eq_ok.1 h
      cases h; rfl
  | float | boolean | date | dateTime =>
    obtain ⟨_, -, h⟩ := bind_eq_ok.1 h
    cases h; rfl

variable {s : Settings} {world v : Value}

theorem LeafType.admits_of_typedValue (hp : s.parsers = .none) {place : Keypath} {type : LeafType}
    {raw : Json} (h : s.typedValue world place type raw = .ok v) : type.Admits raw v := by
  unfold Settings.typedValue at h
  split at h
  · obtain ⟨text, -, h⟩ := bind_eq_ok.1 h
    have h := Settings.parsed_eq_ok_iff.1 h
    rw [hp] at h
    cases type with
    | scalar type => exact .scalar (LeafParser.kind_of_builtin h)
    | any => cases h; exact .text ..
  · next hraw =>
    cases h
    exact .same hraw
  · have h := Settings.parsed_eq_ok_iff.1 h
    rw [hp] at h
    cases type with
    | scalar type => exact .scalar (LeafParser.kind_of_builtin h)
    | any => contradiction

theorem Leaf.holds_of_evaluate {holds : LeafType → Json → Value → Prop}
    (hh : ∀ world place type raw v, s.typedValue world place type raw = .ok v → holds type raw v)
    {l : Leaf} (h : l.evaluate s world = .ok v) : l.Holds holds v := by
  obtain ⟨place, kind, raw, preset⟩ := l
  cases preset with
  | some d => cases h; rfl
  | none =>
    cases kind with
    | typed type => exact hh _ _ _ _ _ h
    | «alias» container name => exact (Settings.aliasValue_eq_ok_iff.1 h).2

namespace Resolver

variable {r : Resolver} {raw : Json}

/-- The value fits if the scalars are as the equations of their leaves have them. -/
theorem fits_of_typedValue {holds : LeafType → Json → Value → Prop}
    (hh : ∀ world place type raw v, r.settings.typedValue world place type raw = .ok v →
      holds type raw v)
    (hs : r.schema.DistinctKeys) (hraw : raw.DistinctKeys) (h : r.resolve raw = .ok v) :
    r.schema.Fits holds raw v := by
  obtain ⟨-, root, hb, σ, hσ, -, rfl⟩ := exists_solution h
  rw [Node.ofConfig_eq_build hs hraw] at hb
  exact Node.fits_value hs _ raw root hb fun l hl => Leaf.holds_of_evaluate hh (hσ l hl)

theorem fits_of_resolve_eq_ok (hs : r.schema.DistinctKeys) (hraw : raw.DistinctKeys)
    (hp : r.settings.parsers = .none) (h : r.resolve raw = .ok v) :
    r.schema.Fits LeafType.Admits raw v :=
  fits_of_typedValue (fun _ _ _ _ _ => LeafType.admits_of_typedValue hp) hs hraw h

/-- A reference to a list, a default, and a key that is not declared. -/
theorem fits_of_ports :
    (Schema.dict [("ports", .list (.scalar .integer false) false),
        ("open", .list (.scalar .integer false) false)]
        [("debug", .scalar .boolean false, some (.bool false))] (some .any) false).Fits
      LeafType.Admits
      (.object [("note", .null), ("open", .string "$\x7bthis.ports\x7d"),
        ("ports", .array [.string "80"])])
      (.dict [("ports", .list [.integer 80]), ("open", .list [.integer 80]),
        ("debug", .bool false), ("note", .null)]) := by
  have hs : (Schema.dict [("ports", .list (.scalar .integer false) false),
      ("open", .list (.scalar .integer false) false)]
      [("debug", .scalar .boolean false, some (.bool false))] (some .any) false).DistinctKeys :=
    .dict (by simp) (by simp [Schema.DistinctKeys.scalar, Schema.DistinctKeys.list])
      (by simp [Schema.DistinctKeys.scalar]) (by simp [Schema.DistinctKeys.any])
  have hraw : (Json.object [("note", .null), ("open", .string "$\x7bthis.ports\x7d"),
      ("ports", .array [.string "80"])]).DistinctKeys :=
    .object (by simp)
      (by simp)
  exact fits_of_resolve_eq_ok (r := .ofSchema _) hs hraw rfl (by cbv)

end Resolver
end TypedConfig
