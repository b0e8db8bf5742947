import Mathlib
import TypedConfig.Proofs.Resolution.Outcome
import TypedConfig.Proofs.Schema.DistinctKeys

/-!
# The solution of a configuration

A configuration resolves to a value if and only if its equations have a solution with this value
and no leaf refers to itself (`Resolver.resolve_eq_ok_iff`). There is no other solution then
(`Resolution.eq_of_solves`). Where a leaf does refer to itself there may be a solution, even a single
one, and the resolution fails all the same (`Resolver.exists_solves_not_resolved`).
-/

namespace TypedConfig

namespace Resolution

variable {s : Settings} {root : Node} {σ : Assignment} {p : Progress} {v : Value} {e : Error}

theorem evaluate_of_done (h : p.Settled s root) {l : Leaf} (hl : l ∈ root.leaves)
    (hd : p.state l = .done v) (σ : Assignment) :
    l.evaluate s (root.value (p.assignment σ)) = .ok v :=
  h.determined l hl v hd _ (p.agrees_assignment σ)

/-- Solutions have the values that the done leaves have come to. -/
theorem agrees_of_solves (h : p.Settled s root) (hσ : Solves s root σ) :
    ∀ l ∈ root.leaves, p.assignment σ l = σ l := by
  intro l hl
  by_cases hd : p.Done l
  · have hacc := h.acc l hl hd
    clear hd
    -- the leaves that a done leaf refers to have the same value in both, and so it has
    induction hacc with
    | intro l _ ih =>
      cases hs : p.state l with
      | done w =>
        have hrefs : l.evaluate s (root.value (p.assignment σ)) = l.evaluate s (root.value σ) :=
          Leaf.evaluate_congr fun l' href => ih l' href href.mem_leaves
        rw [hσ l hl, evaluate_of_done h hl hs σ] at hrefs
        rw [← Except.ok.inj hrefs]
        exact p.agrees_assignment σ l w hs
      | _ => simp [Progress.assignment, hs]
  · cases hs : p.state l with
    | done w => exact absurd ⟨w, hs⟩ hd
    | _ => simp [Progress.assignment, hs]

theorem Success.solves (h : Success s root v p) (τ : Assignment) : Solves s root (p.assignment τ) := by
  intro l hl
  obtain ⟨w, hw⟩ := h.done l hl
  rw [evaluate_of_done h.settled hl hw τ, p.agrees_assignment τ l w hw]

theorem not_transGen_of_acc {α : Type} {r : α → α → Prop} {a : α} (h : Acc (fun b a => r a b) a) :
    ¬ Relation.TransGen r a a := by
  induction h with
  | intro a _ ih =>
    intro hcycle
    obtain ⟨b, hab, hba⟩ := Relation.TransGen.head'_iff.1 hcycle
    exact ih b hab (.tail' hba hab)

theorem Success.acyclic (h : Success s root v p) : Acyclic s root := fun l hl =>
  not_transGen_of_acc (h.settled.acc l hl (h.done l hl))

/-- A resolution fails only where there is no solution, or a loop. -/
theorem Failure.not_solves (h : Failure s root e p) (hσ : Solves s root σ)
    (hacyclic : Acyclic s root) : False := by
  rcases h.cause with ⟨first, rest, hloop, -⟩ | ⟨l, hl, he⟩
  · exact hacyclic first (hloop.mem_leaves first (List.mem_cons_self ..)) hloop.transGen
  · have hworld : root.value (p.assignment σ) = root.value σ :=
      Node.value_congr root (agrees_of_solves h.settled hσ)
    have he : l.evaluate s (root.value (p.assignment σ)) = .error e := he _ (p.agrees_assignment σ)
    rw [hworld, hσ l hl] at he
    cases he

/-- Without loops there is one solution at most. -/
theorem eq_of_solves {τ : Assignment} (hroot : root.DistinctPlaces) (hacyclic : Acyclic s root)
    (hσ : Solves s root σ) (hτ : Solves s root τ) : ∀ l ∈ root.leaves, σ l = τ l := by
  intro l hl
  have hends := ends_resolveTree (s := s) hroot
  cases hres : resolveTree s root .start with
  | ok v p =>
    have hp := hends.eq_ok hres
    exact hσ.eq_of_acc hτ (hp.settled.acc l hl (hp.done l hl)) hl
  | error e p => exact ((hends.eq_error hres).not_solves hσ hacyclic).elim

end Resolution

namespace Resolver

open Resolution

variable {r : Resolver} {raw : Json} {root : Node}

/-- A configuration that resolves has a solution without loops, with the value that it resolves to. -/
theorem exists_solution {v : Value} (h : r.resolve raw = .ok v) :
    r.settings.checkVariables = .ok () ∧ ∃ root, Node.ofConfig r.schema raw = .ok root ∧
      ∃ σ : Assignment, Solves r.settings root σ ∧ Acyclic r.settings root ∧ root.value σ = v := by
  obtain ⟨hv, root, hb, p, hp⟩ := exists_success h
  exact ⟨hv, root, hb, _, hp.solves fun _ => .null, hp.acyclic, hp.value _ (p.agrees_assignment _)⟩

/-- A configuration with a solution without loops resolves to the value of this solution. -/
theorem resolve_of_solves (hv : r.settings.checkVariables = .ok ())
    (hb : Node.ofConfig r.schema raw = .ok root) {σ : Assignment} (hσ : Solves r.settings root σ) (hacyclic : Acyclic r.settings root) :
    r.resolve raw = .ok (root.value σ) := by
  rcases success_or_failure hv hb with ⟨w, p, hrun, hp⟩ | ⟨e, p, hrun, hp⟩
  · rw [resolve, hrun, ← hp.value _ (p.agrees_assignment σ)]
    exact congrArg _ (Node.value_congr root (agrees_of_solves hp.settled hσ))
  · exact (hp.not_solves hσ hacyclic).elim

theorem resolve_eq_ok_iff (hv : r.settings.checkVariables = .ok ())
    (hb : Node.ofConfig r.schema raw = .ok root) (v : Value) :
    r.resolve raw = .ok v ↔
      ∃ σ : Assignment, Solves r.settings root σ ∧ Acyclic r.settings root ∧ root.value σ = v := by
  rcases success_or_failure hv hb with ⟨w, p, hrun, hp⟩ | ⟨e, p, hrun, hp⟩
  · rw [resolve, hrun]
    constructor
    · intro h
      cases h
      exact ⟨_, hp.solves fun _ => .null, hp.acyclic, hp.value _ (p.agrees_assignment _)⟩
    · rintro ⟨σ, hσ, -, rfl⟩
      rw [← hp.value _ (p.agrees_assignment σ)]
      exact congrArg _ (Node.value_congr root (agrees_of_solves hp.settled hσ))
  · rw [resolve, hrun]
    constructor
    · intro h
      cases h
    · rintro ⟨σ, hσ, hacyclic, -⟩
      exact (hp.not_solves hσ hacyclic).elim

/-- A text with another one in it. -/
theorem exists_solution_of_greeting :
    let r := ofSchema
      (.dict [("name", .scalar .string false), ("text", .scalar .string false)] [] none false)
    let raw := Json.object [("name", .string "world"),
      ("text", .string "hello $\x7bthis.name\x7d")]
    ∃ root, Node.ofConfig r.schema raw = .ok root ∧
      ∃ σ : Assignment, Solves r.settings root σ ∧ Acyclic r.settings root ∧
        root.value σ = .dict [("name", .string "world"), ("text", .string "hello world")] := by
  intro r raw
  have h : r.resolve raw =
      .ok (.dict [("name", .string "world"), ("text", .string "hello world")]) := by cbv
  exact ⟨_, rfl, (resolve_eq_ok_iff rfl rfl _).1 h⟩

/-- A flag that is set if it is set, or anyway: that it is set is the only solution. -/
theorem exists_solves_not_resolved :
    ∃ (r : Resolver) (raw : Json) (root : Node) (σ : Assignment), r.schema.DistinctKeys ∧
      raw.DistinctKeys ∧ r.settings.checkVariables = .ok () ∧
      Node.ofConfig r.schema raw = .ok root ∧ Solves r.settings root σ ∧
      r.resolve raw ≠ .ok (root.value σ) := by
  refine ⟨.ofSchema (.dict [("flag", .scalar .boolean false)] [] none false),
    .object [("flag", .string "$\x7bthis.flag\x7d or true")], _, fun _ => .bool true,
    .dict (by simp) (by simp [Schema.DistinctKeys.scalar]) (by simp) (by simp),
    .object (by simp) (by simp), rfl, rfl, fun l hl => ?_, ?_⟩
  · obtain rfl := List.mem_singleton.1 hl
    cbv
  · have herror : (ofSchema (.dict [("flag", .scalar .boolean false)] [] none false)).resolve
        (.object [("flag", .string "$\x7bthis.flag\x7d or true")]) =
          .error (.circularReference (Keypath.root.key "flag")
            [Keypath.root.key "flag", Keypath.root.key "flag"]) := by
      cbv
    rw [herror]
    exact fun h => by cases h

end Resolver
end TypedConfig
