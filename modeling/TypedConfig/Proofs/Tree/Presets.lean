import TypedConfig.Proofs.Schema.DistinctKeys
import TypedConfig.Proofs.Tree.Places

/-!
# Values from the beginning

A leaf of a built tree that has its value from the beginning has null, or it is an absent key with
the default that its schema declares (`Node.presetDeclared_ofConfig`).
-/

namespace TypedConfig

/-- If the leaf has its value from the beginning, this is null or a default of a schema of its
type. -/
def Leaf.PresetDeclared (l : Leaf) : Prop :=
  ∀ d, l.preset = some d →
    d = .null ∨ ∃ schema : Schema, l.kind = .typed schema.leafType ∧ schema.HasDefault d

namespace Node

/-- All leaves of the node are such. -/
def PresetsDeclared (n : Node) : Prop := ∀ l ∈ n.leaves, l.PresetDeclared

variable {place : Keypath} {raw : Json} {n : Node}

theorem presetsDeclared_leaf {l : Leaf} (h : l.PresetDeclared) : (leaf l).PresetsDeclared := by
  intro l' hl'
  rw [leaves_leaf, List.mem_singleton] at hl'
  exact hl' ▸ h

theorem presetsDeclared_null (type : LeafType) :
    (presetLeaf place type raw .null).PresetsDeclared :=
  presetsDeclared_leaf fun _ hd => .inl (Option.some.inj hd).symm

theorem presetsDeclared_of_hasDefault {schema : Schema} {d : Value} (h : schema.HasDefault d) :
    (presetLeaf place schema.leafType raw d).PresetsDeclared :=
  presetsDeclared_leaf fun _ hd => .inr ⟨schema, rfl, Option.some.inj hd ▸ h⟩

theorem presetsDeclared_of_open {l : Leaf} (h : l.preset = none) : (leaf l).PresetsDeclared :=
  presetsDeclared_leaf fun d hd => by rw [h] at hd; cases hd

theorem presetsDeclared_dict {children : List (String × Node)}
    (h : ∀ c ∈ children, c.2.PresetsDeclared) : (dict place children).PresetsDeclared := by
  intro l hl
  rw [leaves_dict] at hl
  obtain ⟨c, hc, hl⟩ := List.mem_flatMap.1 hl
  exact h c hc l hl

theorem presetsDeclared_list {children : List Node} (h : ∀ c ∈ children, c.PresetsDeclared) :
    (list place children).PresetsDeclared := by
  intro l hl
  rw [leaves_list] at hl
  obtain ⟨c, hc, hl⟩ := List.mem_flatMap.1 hl
  exact h c hc l hl

/-! ### Built trees -/

mutual

theorem presetsDeclared_ofAny (place : Keypath) : ∀ j : Json, (ofAny place j).PresetsDeclared
  | .object entries => presetsDeclared_dict (presetsDeclared_ofAnyEntries place entries)
  | .array items => presetsDeclared_list (presetsDeclared_ofAnyItems place 0 items)
  | .null => presetsDeclared_null .any
  | .bool _ | .number _ | .string _ => presetsDeclared_of_open rfl

theorem presetsDeclared_ofAnyEntries (place : Keypath) : ∀ js : List (String × Json),
    ∀ c ∈ ofAnyEntries place js, c.2.PresetsDeclared
  | [] => by simp [ofAnyEntries]
  | (_, j) :: js => by
    rw [ofAnyEntries]
    exact List.forall_mem_cons.2
      ⟨presetsDeclared_ofAny _ j, presetsDeclared_ofAnyEntries place js⟩

theorem presetsDeclared_ofAnyItems (place : Keypath) : ∀ (position : Nat) (js : List Json),
    ∀ c ∈ ofAnyItems place position js, c.PresetsDeclared
  | _, [] => by simp [ofAnyItems]
  | position, j :: js => by
    rw [ofAnyItems]
    exact List.forall_mem_cons.2
      ⟨presetsDeclared_ofAny _ j, presetsDeclared_ofAnyItems place (position + 1) js⟩

end

theorem presetsDeclared_standIn {container : Container} {nullable : Bool}
    (h : standIn? place container nullable raw = some n) : n.PresetsDeclared := by
  rcases cases_of_standIn h with ⟨-, -, rfl⟩ | ⟨s, name, -, -, rfl⟩
  · exact presetsDeclared_null .any
  · exact presetsDeclared_of_open rfl

theorem presetsDeclared_ofScalar {type : ScalarType} {nullable : Bool}
    (h : ofScalar place type nullable raw = .ok n) : n.PresetsDeclared := by
  rcases cases_of_ofScalar h with ⟨-, -, rfl⟩ | ⟨-, rfl⟩
  · exact presetsDeclared_null _
  · exact presetsDeclared_of_open rfl

/-- What is built has declared values only. -/
def BuildsDeclared (item : Keypath → Json → Except ShapeError Node) : Prop :=
  ∀ place j n, item place j = .ok n → n.PresetsDeclared

theorem presetsDeclared_ofItems {item : Keypath → Json → Except ShapeError Node}
    (hi : BuildsDeclared item) {position : Nat} {js : List Json} {children : List Node}
    (h : ofItems item place position js = .ok children) : ∀ c ∈ children, c.PresetsDeclared := by
  intro c hc
  obtain ⟨i, hi'⟩ := List.mem_iff_getElem?.1 hc
  obtain ⟨j, -, hn⟩ := exists_item_of_ofItems h hi'
  exact hi _ j c hn

section
variable {entries : List (String × Json)} {children : List (String × Node)}

theorem presetsDeclared_ofExtra {extra : Option Schema}
    (hi : ∀ schema, extra = some schema → BuildsDeclared (build schema))
    (h : ofExtra (buildExtra extra) place entries = .ok children) :
    ∀ c ∈ children, c.2.PresetsDeclared := by
  intro c hc
  obtain ⟨e, -, ⟨hs, hn⟩⟩ := exists_of_mem_children (ofExtra_eq_ok_iff.1 h) hc
  exact hi _ hs _ _ _ hn

theorem presetsDeclared_buildRequired {required : List (String × Schema)}
    (hi : ∀ e ∈ required, BuildsDeclared (build e.2))
    (h : buildRequired place entries required = .ok children) :
    ∀ c ∈ children, c.2.PresetsDeclared := by
  intro c hc
  obtain ⟨e, he, ⟨-, hn⟩⟩ := exists_of_mem_children (buildRequired_eq_ok_iff.1 h) hc
  exact hi _ he _ _ _ hn

/-- The one group of keys in which absent ones get their defaults. -/
theorem presetsDeclared_buildOptional {optional : List (String × Schema × Option Value)}
    (hi : ∀ e ∈ optional, BuildsDeclared (build e.2.1))
    (hd : ∀ e ∈ optional, ∀ d, e.2.2 = some d → e.2.1.HasDefault d)
    (h : buildOptional place entries optional = .ok children) :
    ∀ c ∈ children, c.2.PresetsDeclared := by
  intro c hc
  obtain ⟨e, he, ⟨-, hn⟩ | _⟩ := exists_of_mem_children (buildOptional_eq_ok_iff.1 h) hc
  · exact hi _ he _ _ _ hn
  · exact presetsDeclared_of_hasDefault (hd _ he _ rfl)

end

theorem buildsDeclared {schema : Schema} (h : schema.WellFormed) : BuildsDeclared (build schema) := by
  induction h with
  | any =>
    rintro place j n hn
    cases hn
    exact presetsDeclared_ofAny place j
  | scalar => exact fun place j n h => presetsDeclared_ofScalar h
  | list _ ih =>
    intro place j n hn
    rcases build_list_eq_ok_iff.1 hn with hn | ⟨items, children, -, rfl, hc⟩
    · exact presetsDeclared_standIn hn
    · exact presetsDeclared_list (presetsDeclared_ofItems ih hc)
  | dict _ _ _ hdefault _ hrequired hoptional hextra =>
    intro place j n hn
    rcases build_dict_eq_ok_iff.1 hn with hn | ⟨entries, cs₁, cs₂, cs₃, -, rfl, h₁, h₂, h₃⟩
    · exact presetsDeclared_standIn hn
    · refine presetsDeclared_dict (List.forall_mem_append.2 ⟨List.forall_mem_append.2 ⟨?_, ?_⟩, ?_⟩)
      · exact presetsDeclared_buildRequired hrequired h₁
      · exact presetsDeclared_buildOptional hoptional hdefault h₂
      · exact presetsDeclared_ofExtra hextra h₃

theorem presetDeclared_ofConfig {schema : Schema} {root : Node} (hs : schema.WellFormed)
    (h : ofConfig schema raw = .ok root) {l : Leaf} (hl : l ∈ root.leaves) : l.PresetDeclared := by
  obtain ⟨n, hn, rfl⟩ := ofConfig_eq_ok_iff.1 h
  exact buildsDeclared hs .root raw n hn l ((standsAt_build hn).leaves_keyed_subset hl)

end Node
end TypedConfig
