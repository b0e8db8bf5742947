import Mathlib
import TypedConfig.Proofs.Resolution.Outcome

/-!
# Reported cycles

A circular reference that is reported is there (`Resolver.loop_of_resolve_eq_error`): the cycle
lists leaves of the configuration, each of which refers to the next one, from the leaf of the error
back to this leaf. No leaf comes twice in between, and none that only leads into the loop is
mentioned. The equations of leaves give no such errors; they come from the stack alone.
-/

namespace TypedConfig

variable {s : Settings} {r : Resolver} {raw : Json} {place : Keypath} {cycle : List Keypath}

theorem Leaf.Reports.ne_circularReference {l : Leaf} {e : Error} (h : l.Reports e) :
    e ≠ .circularReference place cycle := by
  cases h <;> simp

theorem Settings.checkVariables_ne_circularReference :
    s.checkVariables ≠ .error (.circularReference place cycle) := by
  unfold checkVariables
  split
  · simp
  · split <;> simp
  · simp

namespace Resolution

theorem Failure.loop {root : Node} {p : Progress}
    (h : Failure s root (.circularReference place cycle) p) :
    ∃ first rest, Loop s root first rest ∧
      .circularReference place cycle = Loop.error first rest := by
  refine h.cause.resolve_right ?_
  rintro ⟨l, -, he⟩
  have hreports : l.Reports (.circularReference place cycle) :=
    Leaf.reports_of_evaluate (he _ (p.agrees_assignment fun _ => .null))
  exact hreports.ne_circularReference rfl

end Resolution

namespace Resolver

theorem loop_of_resolve_eq_error
    (h : r.resolve raw = .error (.circularReference place cycle)) :
    ∃ root, Node.ofConfig r.schema raw = .ok root ∧
      ∃ first rest, Loop r.settings root first rest ∧ place = first.place ∧
        cycle = (first :: rest).map Leaf.place ++ [first.place] := by
  cases hv : r.settings.checkVariables with
  | error e =>
    simp only [resolve, run, hv, Except.error.injEq] at h
    exact absurd (h ▸ hv) Settings.checkVariables_ne_circularReference
  | ok =>
    cases hb : Node.ofConfig r.schema raw with
    | error e => simp [resolve, run, hv, hb] at h
    | ok root =>
      refine ⟨root, rfl, ?_⟩
      rcases success_or_failure hv hb with ⟨w, p, hrun, -⟩ | ⟨e, p, hrun, hp⟩
      · simp [resolve, hrun] at h
      · simp only [resolve, hrun, Except.error.injEq] at h
        subst h
        obtain ⟨first, rest, hloop, heq⟩ := hp.loop
        cases heq
        exact ⟨first, rest, hloop, rfl, rfl⟩

/-- The first leaf leads to a loop of the other two, through the list that the second is in. -/
theorem exists_loop_of_entry :
    ∃ root, Node.ofConfig .any (.object [("entry", .string "$\x7bthis.list\x7d"),
        ("list", .array [.string "$\x7bthis.back\x7d"]),
        ("back", .string "$\x7bthis.list\x7d")]) = .ok root ∧
      ∃ first rest, Loop .initial root first rest ∧
        (Keypath.root.key "list").index 0 = first.place ∧
        [(Keypath.root.key "list").index 0, Keypath.root.key "back",
          (Keypath.root.key "list").index 0] =
            (first :: rest).map Leaf.place ++ [first.place] :=
  loop_of_resolve_eq_error (r := .ofSchema .any) (by cbv)

end Resolver
end TypedConfig
