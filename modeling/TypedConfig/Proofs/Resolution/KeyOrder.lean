import TypedConfig.Proofs.Tree.Built
import TypedConfig.Proofs.Tree.ClosedSchema
import TypedConfig.Resolver

/-!
# The order of keys under closed schemas

Under a closed schema, configurations that differ in the order of keys resolve to the same value,
with its keys in the same order, or fail with the same error. Only which of several undeclared keys
of one object is reported may differ (`Resolver.resolve_eq_or_unknownKey_of_rearranged`). A
resolution goes by the built tree alone, and the tree is the same.
-/

namespace TypedConfig.Resolver

variable {r : Resolver} {raw raw' : Json}

theorem resolve_eq_or_unknownKey_of_rearranged (hs : r.schema.DistinctKeys)
    (hclosed : r.schema.Closed) (h : raw.Rearranged raw') :
    r.resolve raw = r.resolve raw' ∨
      ∃ (parent : Keypath) (k k' : String), raw.Undeclared r.schema parent.segments k ∧
        raw.Undeclared r.schema parent.segments k' ∧
        r.resolve raw = .error (.shape (.unknownKey (parent.key k))) ∧
        r.resolve raw' = .error (.shape (.unknownKey (parent.key k'))) := by
  unfold resolve run
  cases r.settings.checkVariables with
  | error e => exact .inl rfl
  | ok =>
    rcases Node.alike_build hs hclosed .root raw raw' h with
      heq | ⟨steps, k, k', hk, hk', hbuild, hbuild'⟩
    · left
      simp only [Node.ofConfig, heq]
    · refine .inr ⟨⟨steps⟩, k, k', hk, hk', ?_, ?_⟩
      · rw [Node.ofConfig_eq_error_iff.2 hbuild]
        rfl
      · rw [Node.ofConfig_eq_error_iff.2 hbuild']
        rfl

/-- A section with two keys that it should not have. -/
theorem resolve_of_two_undeclared :
    let schema : Schema := .dict [("port", .scalar .integer false),
      ("section", .dict [("name", .scalar .string false)] [] none false)] [] none false
    let raw : Json := .object [("port", .string "1"),
      ("section", .object [("x", .null), ("name", .string "a"), ("y", .null)])]
    let raw' : Json := .object [("section", .object [("y", .null), ("x", .null),
      ("name", .string "a")]), ("port", .string "1")]
    (ofSchema schema).resolve raw = (ofSchema schema).resolve raw' ∨
      ∃ (parent : Keypath) (k k' : String), raw.Undeclared schema parent.segments k ∧
        raw.Undeclared schema parent.segments k' ∧
        (ofSchema schema).resolve raw = .error (.shape (.unknownKey (parent.key k))) ∧
        (ofSchema schema).resolve raw' = .error (.shape (.unknownKey (parent.key k'))) := by
  intro schema raw raw'
  have hs : schema.DistinctKeys :=
    .dict (by simp) (by simp [Schema.DistinctKeys.scalar, Schema.DistinctKeys.dict]) (by simp)
      (by simp)
  have hclosed : schema.Closed :=
    .dict (by simp [Schema.Closed.scalar, Schema.Closed.dict]) (by simp)
  have h : raw.Rearranged raw' := by
    refine .object (by decide) ?_
    simp only [List.mem_cons, List.not_mem_nil, or_false]
    rintro e (rfl | rfl) e' (rfl | rfl) heq
    · exact absurd heq (by decide)
    · exact .refl _
    · exact .of_perm (by decide)
        (@List.perm_append_comm _ [("x", Json.null), ("name", .string "a")] [("y", .null)])
    · exact absurd heq (by decide)
  exact resolve_eq_or_unknownKey_of_rearranged (r := .ofSchema schema) hs hclosed h

end TypedConfig.Resolver
