import Mathlib
import TypedConfig.Proofs.Resolution.Outcome

/-!
# Reported errors are true

When a configuration whose tree could be built does not resolve, the error is about a loop of
references, or about the leaf at its place, which is the reason of it
(`Resolver.loop_or_explains_of_resolve_eq_error`). However many leaves asked for that leaf before,
the place and the texts of the error are its own.
-/

namespace TypedConfig.Resolver

variable {r : Resolver} {raw : Json} {root : Node} {e : Error}

theorem loop_or_explains_of_resolve_eq_error (hv : r.settings.checkVariables = .ok ())
    (hb : Node.ofConfig r.schema raw = .ok root) (h : r.resolve raw = .error e) :
    (∃ first rest, Loop r.settings root first rest ∧ e = Loop.error first rest) ∨
      ∃ l ∈ root.leaves, l.preset = none ∧ l.Explains r.settings root e := by
  rcases success_or_failure hv hb with ⟨v, p, hrun, -⟩ | ⟨e', p, hrun, hp⟩
  · simp [resolve, hrun] at h
  · simp only [resolve, hrun, Except.error.injEq] at h
    subst h
    exact hp.explained

/-- The banner asks for a flag, whose text is no truth value once the word is written out. -/
theorem explains_of_banner :
    let r := ofSchema (.dict [("banner", .scalar .string false), ("flag", .scalar .boolean false),
      ("word", .scalar .string false)] [] none false)
    let raw := Json.object [("banner", .string "on: $\x7bthis.flag\x7d"),
      ("flag", .string "$\x7bthis.word\x7d or true"), ("word", .string "maybe")]
    ∃ root, Node.ofConfig r.schema raw = .ok root ∧
      ∃ l ∈ root.leaves, l.preset = none ∧ l.Explains r.settings root
        (.parse (Keypath.root.key "flag") "$\x7bthis.word\x7d or true" "maybe or true"
          (.malformed 0 (.unknownWord "maybe".toList))) := by
  intro r raw
  have h : r.resolve raw = .error (.parse (Keypath.root.key "flag") "$\x7bthis.word\x7d or true"
      "maybe or true" (.malformed 0 (.unknownWord "maybe".toList))) := by cbv
  refine ⟨_, rfl, (loop_or_explains_of_resolve_eq_error rfl rfl h).resolve_left ?_⟩
  rintro ⟨first, rest, -, heq⟩
  cases heq

end TypedConfig.Resolver
