import Mathlib.Data.List.Forall2
import TypedConfig.Proofs.Json.DistinctKeys
import TypedConfig.Proofs.Lookup
import TypedConfig.Value

/-!
# Documents with their keys in another order

Two documents are rearranged if they differ in nothing but the order of the keys of their objects,
however deep.
-/

namespace TypedConfig.Json

/-- The documents differ in the order of the keys of objects only. -/
inductive Rearranged : Json → Json → Prop
  | refl (j : Json) : Rearranged j j
  | array {items items' : List Json} (hlength : items.length = items'.length)
      (hitems : ∀ p ∈ items.zip items', Rearranged p.1 p.2) :
      Rearranged (.array items) (.array items')
  | object {entries entries' : List (String × Json)}
      (hkeys : (entries.map Prod.fst).Perm (entries'.map Prod.fst))
      (hentries : ∀ e ∈ entries, ∀ e' ∈ entries', e.1 = e'.1 → Rearranged e.2 e'.2) :
      Rearranged (.object entries) (.object entries')

/-- An object is rearranged by a permutation of its entries. -/
theorem Rearranged.of_perm {entries entries' : List (String × Json)}
    (hnodup : (entries.map Prod.fst).Nodup) (h : entries.Perm entries') :
    Rearranged (.object entries) (.object entries') := by
  refine .object (h.map _) fun e he e' he' heq => ?_
  rw [List.inj_on_of_nodup_map hnodup he (h.mem_iff.2 he') heq]
  exact .refl _

theorem Rearranged.of_array {items : List Json} {j : Json} (h : Rearranged (.array items) j) :
    ∃ items', j = .array items' ∧ items.length = items'.length ∧
      ∀ p ∈ items.zip items', Rearranged p.1 p.2 := by
  cases h with
  | refl =>
    have hsame := List.forall₂_same.2 fun j (_ : j ∈ items) => Rearranged.refl j
    exact ⟨items, rfl, rfl, fun p hp => (List.forall₂_iff_zip.1 hsame).2 hp⟩
  | array hlength hitems => exact ⟨_, rfl, hlength, hitems⟩

theorem Rearranged.of_object {entries : List (String × Json)} {j : Json}
    (hnodup : (entries.map Prod.fst).Nodup) (h : Rearranged (.object entries) j) :
    ∃ entries', j = .object entries' ∧ (entries.map Prod.fst).Perm (entries'.map Prod.fst) ∧
      ∀ e ∈ entries, ∀ e' ∈ entries', e.1 = e'.1 → Rearranged e.2 e'.2 := by
  cases h with
  | refl =>
    refine ⟨entries, rfl, .refl _, fun e he e' he' heq => ?_⟩
    rw [List.inj_on_of_nodup_map hnodup he he' heq]
    exact .refl _
  | object hkeys hentries => exact ⟨_, rfl, hkeys, hentries⟩

end TypedConfig.Json
