import Mathlib.Data.List.Forall2
import TypedConfig.Proofs.Except
import TypedConfig.Proofs.Json.Rearranged
import TypedConfig.Proofs.Schema.Descent
import TypedConfig.Tree.Build

/-!
# Trees under closed schemas

A schema is closed if it names each key that there may be. What is built under it does not depend on
the order of keys in the document: rearranged documents have the same tree, or the same is wrong
with them, except that among the undeclared keys of one object the first one is reported
(`Node.alike_build`).
-/

namespace TypedConfig

/-- Neither the schema nor any in it admits undeclared keys. -/
inductive Schema.Closed : Schema → Prop
  | dict {required : List (String × Schema)} {optional : List (String × Schema × Option Value)}
      {nullable : Bool} (hrequired : ∀ e ∈ required, Closed e.2)
      (hoptional : ∀ e ∈ optional, Closed e.2.1) : Closed (.dict required optional none nullable)
  | list {element : Schema} {nullable : Bool} (helement : Closed element) :
    Closed (.list element nullable)
  | scalar (type : ScalarType) (nullable : Bool) : Closed (.scalar type nullable)

namespace Json

/-- In the object that steps lead to there is the key, and the schema does not admit it there. -/
def Undeclared (schema : Schema) (j : Json) (steps : List Segment) (k : String) : Prop :=
  (∃ entries, j.reach? steps = some (.object entries) ∧ k ∈ entries.map Prod.fst) ∧
    schema.descend? (steps ++ [.key k]) = none

theorem Undeclared.cons {schema child : Schema} {j part : Json} {s : Segment}
    {steps : List Segment} {k : String} (hs : schema.child? s = some child)
    (hj : j.step? s = some part) (h : Undeclared child part steps k) :
    Undeclared schema j (s :: steps) k :=
  ⟨by simpa only [reach?, hj, Option.bind_some] using h.1,
    by simpa only [List.cons_append, Schema.descend?, hs, Option.bind_some] using h.2⟩

end Json

/-- The same outcome, or two keys of one object, both undeclared, are reported as unknown. -/
def Alike {α : Type} (undeclared : List Segment → String → Prop) (place : Keypath)
    (x y : Except ShapeError α) : Prop :=
  x = y ∨ ∃ steps k k', undeclared steps k ∧ undeclared steps k' ∧
    x = .error (.unknownKey ⟨place.segments ++ steps ++ [.key k]⟩) ∧
    y = .error (.unknownKey ⟨place.segments ++ steps ++ [.key k']⟩)

namespace Alike

variable {α β : Type} {undeclared undeclared' : List Segment → String → Prop} {place : Keypath}
  {x y : Except ShapeError α}

theorem refl (x : Except ShapeError α) : Alike undeclared place x x := .inl rfl

theorem bind {f g : α → Except ShapeError β} (h : Alike undeclared place x y)
    (hf : ∀ a, Alike undeclared place (f a) (g a)) :
    Alike undeclared place (x >>= f) (y >>= g) := by
  rcases h with rfl | ⟨steps, k, k', hk, hk', rfl, rfl⟩
  · cases x with
    | ok a => exact hf a
    | error e => exact .refl _
  · exact .inr ⟨steps, k, k', hk, hk', rfl, rfl⟩

theorem below {s : Segment} (h : Alike undeclared (place.push s) x y)
    (hmono : ∀ steps k, undeclared steps k → undeclared' (s :: steps) k) :
    Alike undeclared' place x y := by
  refine h.imp id ?_
  rintro ⟨steps, k, k', hk, hk', hx, hy⟩
  refine ⟨s :: steps, k, k', hmono _ _ hk, hmono _ _ hk', ?_, ?_⟩
  · simpa [Keypath.push] using hx
  · simpa [Keypath.push] using hy

end Alike

namespace Node

/-- Rearranged documents have the same tree under the schema, or fail alike. -/
def BuildsAlike (schema : Schema) : Prop :=
  ∀ place raw raw', Json.Rearranged raw raw' →
    Alike (Json.Undeclared schema raw) place (build schema place raw) (build schema place raw')

theorem standIn?_rearranged {raw raw' : Json} (h : Json.Rearranged raw raw') (place : Keypath)
    (container : Container) (nullable : Bool) :
    standIn? place container nullable raw = standIn? place container nullable raw' := by
  cases h <;> rfl

theorem ofScalar_rearranged {raw raw' : Json} (h : Json.Rearranged raw raw') (place : Keypath)
    (type : ScalarType) (nullable : Bool) :
    ofScalar place type nullable raw = ofScalar place type nullable raw' := by
  cases h <;> rfl

variable {undeclared : List Segment → String → Prop} {place : Keypath}

theorem alike_ofItems {item : Keypath → Json → Except ShapeError Node} {position : Nat}
    {js js' : List Json} (h : List.Forall₂ Json.Rearranged js js')
    (hi : ∀ i j j', js[i]? = some j → Json.Rearranged j j' →
      Alike undeclared place (item (place.index (position + i)) j)
        (item (place.index (position + i)) j')) :
    Alike undeclared place (ofItems item place position js) (ofItems item place position js') := by
  induction h generalizing position with
  | nil => exact .refl _
  | @cons j j' js js' hj _ ih =>
    refine (hi 0 j j' rfl hj).bind fun child => .bind (ih fun i j j' hget hj => ?_) fun _ => .refl _
    simpa only [Nat.add_assoc, Nat.add_comm 1] using hi (i + 1) j j' (by simpa using hget) hj

section
variable {entries entries' : List (String × Json)}
  (hkeys : (entries.map Prod.fst).Perm (entries'.map Prod.fst))
  (hentries : ∀ e ∈ entries, ∀ e' ∈ entries', e.1 = e'.1 → Json.Rearranged e.2 e'.2)
include hkeys hentries

theorem alike_buildRequired {required : List (String × Schema)}
    (hi : ∀ e ∈ required, ∀ j j', entries.lookup e.1 = some j → Json.Rearranged j j' →
      Alike undeclared place (build e.2 (place.key e.1) j) (build e.2 (place.key e.1) j')) :
    Alike undeclared place (buildRequired place entries required)
      (buildRequired place entries' required) := by
  induction required with
  | nil => exact .refl _
  | cons e required ih =>
    obtain ⟨k, schema⟩ := e
    obtain ⟨hi₁, hi⟩ := List.forall_mem_cons.1 hi
    rw [buildRequired, buildRequired]
    rcases lookup_related hkeys hentries k with ⟨hj, hj'⟩ | ⟨j, j', hj, hj', hr⟩
    · rw [hj, hj']
      exact .refl _
    · rw [hj, hj']
      exact (hi₁ j j' hj hr).bind fun child => (ih hi).bind fun _ => .refl _

theorem alike_buildOptional {optional : List (String × Schema × Option Value)}
    (hi : ∀ e ∈ optional, ∀ j j', entries.lookup e.1 = some j → Json.Rearranged j j' →
      Alike undeclared place (build e.2.1 (place.key e.1) j) (build e.2.1 (place.key e.1) j')) :
    Alike undeclared place (buildOptional place entries optional)
      (buildOptional place entries' optional) := by
  induction optional with
  | nil => exact .refl _
  | cons e optional ih =>
    obtain ⟨k, schema, default⟩ := e
    obtain ⟨hi₁, hmore⟩ := List.forall_mem_cons.1 hi
    unfold buildOptional
    rcases lookup_related hkeys hentries k with ⟨hj, hj'⟩ | ⟨j, j', hj, hj', hr⟩
    · rw [hj, hj']
      cases default with
      | none => exact .refl _
      | some v => exact (ih hmore).bind fun _ => .refl _
    · rw [hj, hj']
      exact (hi₁ j j' hj hr).bind fun child => (ih hmore).bind fun _ => .refl _

end

/-- The undeclared keys are reported in the order of the document. -/
theorem alike_ofExtra {js js' : List (String × Json)}
    (hkeys : (js.map Prod.fst).Perm (js'.map Prod.fst))
    (hu : ∀ k ∈ js.map Prod.fst, undeclared [] k) :
    Alike undeclared place (ofExtra none place js) (ofExtra none place js') := by
  cases js with
  | nil =>
    obtain rfl : js' = [] := by simpa using hkeys
    exact .refl _
  | cons e js =>
    cases js' with
    | nil => simp at hkeys
    | cons e' js' =>
      have he' : e'.1 ∈ (e :: js).map Prod.fst := hkeys.mem_iff.2 (List.mem_cons_self ..)
      refine .inr ⟨[], e.1, e'.1, hu _ (List.mem_cons_self ..), hu _ he', ?_, ?_⟩
      · simp [ofExtra, Keypath.key, Keypath.push]
      · simp [ofExtra, Keypath.key, Keypath.push]

theorem alike_build {schema : Schema} (hs : schema.DistinctKeys) (hclosed : schema.Closed) :
    BuildsAlike schema := by
  induction hclosed with
  | scalar type nullable =>
    intro place raw raw' h
    exact .inl (ofScalar_rearranged h place type nullable)
  | @list element nullable _ ih =>
    intro place raw raw' h
    unfold build
    rw [standIn?_rearranged h]
    cases hs with
    | list helement =>
      split
      · exact .refl _
      · cases h with
        | refl => exact .refl _
        | object => exact .refl _
        | array hlength hitems =>
          refine (alike_ofItems (List.forall₂_iff_zip.2 ⟨hlength, fun h => hitems _ h⟩)
            fun i j j' hj hr => ?_).bind fun _ => .refl _
          rw [Nat.zero_add]
          exact (ih helement _ j j' hr).below fun steps k hk => hk.cons rfl hj
  | @dict required optional nullable _ _ hrequired hoptional =>
    intro place raw raw' h
    unfold build
    rw [standIn?_rearranged h]
    cases hs with
    | dict nodup hdr hdo _ =>
      split
      · exact .refl _
      · cases h with
        | refl => exact .refl _
        | array => exact .refl _
        | @object entries entries' hkeys hentries =>
          refine (alike_buildRequired hkeys hentries fun e he j j' hj hr => ?required).bind
            fun _ => (alike_buildOptional hkeys hentries fun e he j j' hj hr => ?optional).bind
              fun _ => .bind (alike_ofExtra ?perm fun k hk => ?undeclared) fun _ => .refl _
          case required =>
            exact (hrequired e he (hdr e he) _ j j' hr).below fun steps k hk =>
              hk.cons (Schema.child?_required nodup he) hj
          case optional =>
            exact (hoptional e he (hdo e he) _ j j' hr).below fun steps k hk =>
              hk.cons (Schema.child?_optional nodup he) hj
          case perm =>
            exact perm_map_fst_filter hkeys fun k =>
              !(required.map Prod.fst ++ optional.map Prod.fst).contains k
          case undeclared =>
            obtain ⟨e, he, rfl⟩ := List.mem_map.1 hk
            obtain ⟨hmem, hnot⟩ := List.mem_filter.1 he
            have hundeclared : e.1 ∉ required.map Prod.fst ++ optional.map Prod.fst := by
              simpa using hnot
            refine ⟨⟨entries, rfl, List.mem_map_of_mem hmem⟩, ?_⟩
            rw [List.nil_append, Schema.descend?, Schema.child?_undeclared hundeclared,
              Option.bind_none]

end Node
end TypedConfig
