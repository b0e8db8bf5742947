import TypedConfig.Proofs.Decimal.LargeWord
import TypedConfig.Proofs.Resolution.Idempotence

/-!
# Free-form sections

Where anything may stand, a configuration without references is written back as it was given
(`Resolver.passes_freeForm`), key by key and item by item. Its numbers are the same, whole or
double, but for a whole number that fits no signed word: that one is written as a double that no
other double is closer to (`Json.Number.Passes`). So it keeps its value if some double has it
(`Json.Number.Passes.rational?_eq`), and else it does not (`Resolver.not_same_value`).
-/

namespace TypedConfig

namespace Json

/-- The number that a JSON number stands for. -/
def Number.rational? : Number → Option ℚ
  | whole n _ => some n
  | double x _ => Decimal.rational? x

/-- A number as it is given and as it is written. -/
inductive Number.Passes : Number → Number → Prop
  | word {n : Int} {h} (hn : n < 2 ^ 63) : Passes (whole n h) (whole n h)
  | double {x : Float} {h} : Passes (double x h) (double x h)
  | rounded {n : Int} {h} {x : Float} {hx} (hn : 2 ^ 63 ≤ n) (hclosest : Decimal.IsClosest x n) :
    Passes (whole n h) (double x hx)

/-- A document as it is given and as it is written: the same but for the numbers. -/
inductive Passes : Json → Json → Prop
  | null : Passes .null .null
  | bool (b : Bool) : Passes (.bool b) (.bool b)
  | number {n n' : Number} (h : n.Passes n') : Passes (.number n) (.number n')
  | string (s : String) : Passes (.string s) (.string s)
  | array {items items' : List Json} (hlength : items.length = items'.length)
      (hitems : ∀ p ∈ items.zip items', Passes p.1 p.2) : Passes (.array items) (.array items')
  | object {entries entries' : List (String × Json)}
      (hkeys : entries.map Prod.fst = entries'.map Prod.fst)
      (hentries : ∀ p ∈ entries.zip entries', Passes p.1.2 p.2.2) :
      Passes (.object entries) (.object entries')

/-- A number passes with its value if it fits a signed word or a double has its value. -/
theorem Number.Passes.rational?_eq {n n' : Number} (h : n.Passes n')
    (hn : ∀ k hk, n = whole k hk → k < 2 ^ 63 ∨ ∃ x, Decimal.rational? x = some (k : ℚ)) :
    n'.rational? = n.rational? := by
  cases h with
  | word | double => rfl
  | rounded hbig hclosest =>
    rcases hn _ _ rfl with hsmall | ⟨x, hx⟩
    · omega
    · exact hclosest.rational?_eq hx

theorem Number.exists_passes (n : Number) :
    ∃ n', (Value.ofNumber n).toJson = number n' ∧ n.Passes n' := by
  cases n with
  | double x hx => exact ⟨.double x hx, dif_pos hx, .double⟩
  | whole n hn =>
    by_cases hsmall : n < 2 ^ 63
    · obtain ⟨i, hi, rfl⟩ := Value.exists_ofNumber_whole hn hsmall
      exact ⟨.whole i.toInt hn, by rw [hi]; rfl, .word hsmall⟩
    · have hnone : Text.signedWord? n = none := if_neg fun h => hsmall h.2
      have hclosest : Decimal.IsClosest (Decimal.floatOfInt n) n := by
        lift n to ℕ using by omega
        exact Decimal.nearest_word (by omega) (by omega)
      have hfinite := hclosest.isFinite
      refine ⟨.double _ hfinite, ?_, .rounded (by omega) hclosest⟩
      rw [Value.ofNumber, Number.toInt64?, hnone]
      exact dif_pos hfinite

mutual

/-- A document that is taken as a value passes. -/
theorem passes_ofJson : ∀ j : Json, j.Passes (Value.ofJson j).toJson
  | .null => .null
  | .bool b => .bool b
  | .number n => by
    obtain ⟨n', hn', h⟩ := n.exists_passes
    rw [Value.ofJson, hn']
    exact .number h
  | .string s => .string s
  | .array items => by
    rw [Value.ofJson, Value.toJson]
    refine .array ?_ (passes_ofJsonItems items)
    rw [Value.toJsonItems_eq_map, Value.ofJsonItems_eq_map, List.length_map, List.length_map]
  | .object entries => by
    rw [Value.ofJson, Value.toJson]
    refine .object ?_ (passes_ofJsonEntries entries)
    simp [Value.toJsonEntries_eq_map, Value.ofJsonEntries_eq_map, Function.comp_def]

theorem passes_ofJsonItems : ∀ items : List Json,
    ∀ p ∈ items.zip (Value.toJsonItems (Value.ofJsonItems items)), Passes p.1 p.2
  | [] => nofun
  | j :: items => List.forall_mem_cons.2 ⟨passes_ofJson j, passes_ofJsonItems items⟩

theorem passes_ofJsonEntries : ∀ entries : List (String × Json),
    ∀ p ∈ entries.zip (Value.toJsonEntries (Value.ofJsonEntries entries)), Passes p.1.2 p.2.2
  | [] => nofun
  | (_, j) :: entries => List.forall_mem_cons.2 ⟨passes_ofJson j, passes_ofJsonEntries entries⟩

end

end Json

namespace Resolver

variable {r : Resolver} {raw : Json}

/-- A free-form configuration without references resolves and is written as it was given; as the
very same document if its whole numbers fit signed words. -/
theorem passes_freeForm (hs : r.schema = .any) (hr : r.settings.IsBuiltin)
    (hvars : r.settings.checkVariables = .ok ()) (hraw : raw.DistinctKeys)
    (hstrings : ∀ s, raw.Contains (.string s) → Template.hasOpening s.toList = false) :
    ∃ v, r.resolve raw = .ok v ∧ raw.Passes v.toJson ∧ (raw.HasSmallNumbers → v.toJson = raw) := by
  have hkeys : r.schema.DistinctKeys := hs ▸ .any
  have hfits : r.schema.Fits LeafType.Reads raw (.ofJson raw) := hs ▸ Schema.fits_ofJson raw
  exact ⟨_, (resolve_eq_ok_iff_fits hkeys hr hvars (hraw.plain hstrings)).2 hfits,
    raw.passes_ofJson, Value.toJson_ofJson raw⟩

/-- Numbers of each kind at some depth, and a text with a dollar sign. -/
theorem passes_freeForm_of_limits :
    let limits : Json := .object [("note", .string "5 $ each"), ("limits", .array
      [.number (.whole 7 (by decide)), .null, .bool true,
        .object [("ratio", .number (.double (Decimal.toFloat ⟨5, -1⟩) isWritableFloat_half.1)),
          ("most", .number (.whole 18446744073709551615 (by decide)))]])]
    ∃ v, (ofSchema .any).resolve limits = .ok v ∧ limits.Passes v.toJson := by
  intro limits
  have hkeys : limits.DistinctKeys := by simp [limits]
  have hopening : Template.hasOpening "5 $ each".toList = false := by decide
  obtain ⟨v, hv, hpasses, -⟩ :=
    passes_freeForm (r := ofSchema .any) rfl ⟨rfl, rfl⟩ rfl hkeys (by simpa [limits] using hopening)
  exact ⟨v, hv, hpasses⟩

/-- The greatest number of 64 bits is written as the double that is greater by one. -/
theorem not_same_value : ∃ v n,
    (ofSchema .any).resolve (.number (.whole 18446744073709551615 (by decide))) = .ok v ∧
      v.toJson = .number n ∧ n.rational? = some (18446744073709551615 + 1) := by
  have hinteger : Decimal.integer? (Decimal.floatOfInt 18446744073709551615) =
      some 18446744073709551616 := by decide +kernel
  have hvalue := Decimal.integer?_eq_some_iff.1 hinteger
  have hfinite : (Decimal.floatOfInt 18446744073709551615).isFinite = true := by
    rw [← Decimal.isSome_rational?, hvalue]
    rfl
  refine ⟨.float (Decimal.floatOfInt 18446744073709551615), .double _ hfinite, rfl, ?_, ?_⟩
  · rw [Value.toJson, dif_pos hfinite]
  · rw [Json.Number.rational?, hvalue]
    norm_num

end Resolver
end TypedConfig
