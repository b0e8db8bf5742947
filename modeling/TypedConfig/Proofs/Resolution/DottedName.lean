import TypedConfig.Proofs.Template.Render
import TypedConfig.Proofs.Text.Blanks
import TypedConfig.Resolution.Engine

/-!
# Dotted names

A name is taken apart at its dots, and joining names joins their parts (`Keypath.dottedParts_append`).
The dotted form of a keypath whose keys are parts of names (`Keypath.IsPart`) is taken apart into
its segments (`Keypath.dottedParts_text`). Behind the name of the configuration for itself, it refers
to them in the configuration (`Settings.target_text`).
-/

namespace TypedConfig

namespace Keypath

theorem dottedParts_append (name path : String) :
    dottedParts (name ++ "." ++ path) = dottedParts name ++ dottedParts path := by
  have hchars : (name ++ "." ++ path).toList = name.toList ++ '.' :: path.toList := by simp
  rw [dottedParts, hchars, Text.splitWhere_append_cons rfl, List.map_append]
  rfl

theorem dottedParts_ne_nil (name : String) : dottedParts name ≠ [] := by
  simp [dottedParts, Text.splitWhere_ne_nil]

/-- The texts of the segments. -/
def parts (kp : Keypath) : List String := kp.segments.map Segment.text

/-- The text has no dot, and no blanks at its ends. -/
structure IsPart (part : String) : Prop where
  dotless : '.' ∉ part.toList
  trimmed : Text.trimmed part = part

theorem IsPart.dottedParts {part : String} (h : IsPart part) : dottedParts part = [part] := by
  have hdot : ∀ c ∈ part.toList, (c == '.') = false := by
    intro c hc
    exact beq_false_of_ne fun heq => h.dotless (heq ▸ hc)
  rw [Keypath.dottedParts, Text.splitWhere_of_all hdot]
  exact congrArg (· :: []) h.trimmed

theorem isPart_numeral (n : Nat) : IsPart (Text.numeral n) where
  dotless hmem := by
    rcases Text.mem_numeral hmem with hc | hc
    · cases hc
    · cases hc
  trimmed := by
    rw [Text.trimmed, Text.trim_eq_self fun c hc => Text.isBlank_of_mem_numeral hc,
      String.ofList_toList]

theorem IsPart.trim {part : String} (h : IsPart part) : Text.trim part.toList = part.toList := by
  rw [← String.ofList_inj, String.ofList_toList]
  exact h.trimmed

theorem dottedParts_intercalate {parts : List String} (hne : parts ≠ [])
    (h : ∀ part ∈ parts, IsPart part) : dottedParts (".".intercalate parts) = parts := by
  induction parts with
  | nil => exact absurd rfl hne
  | cons part parts ih =>
    obtain ⟨hpart, hparts⟩ := List.forall_mem_cons.1 h
    cases parts with
    | nil => rw [String.intercalate_singleton, hpart.dottedParts]
    | cons next rest =>
      rw [String.intercalate_cons_cons, dottedParts_append, hpart.dottedParts,
        ih (by simp) hparts, List.singleton_append]

theorem trim_intercalate {parts : List String} (h : ∀ part ∈ parts, IsPart part) :
    Text.trim (".".intercalate parts).toList = (".".intercalate parts).toList := by
  induction parts with
  | nil => rfl
  | cons part parts ih =>
    obtain ⟨hpart, hparts⟩ := List.forall_mem_cons.1 h
    cases parts with
    | nil => rw [String.intercalate_singleton, hpart.trim]
    | cons next rest =>
      have hchars : (".".intercalate (part :: next :: rest)).toList =
          part.toList ++ '.' :: (".".intercalate (next :: rest)).toList := by
        simp [-String.toList_intercalate]
      rw [hchars]
      exact Text.trim_append_cons hpart.trim (by decide) (ih hparts)

theorem isPart_of_mem_parts {kp : Keypath} (h : ∀ k, .key k ∈ kp.segments → IsPart k) :
    ∀ part ∈ kp.parts, IsPart part := by
  intro part hmem
  obtain ⟨s, hs, rfl⟩ := List.mem_map.1 hmem
  cases s with
  | key k => exact h k hs
  | index i => exact isPart_numeral i

section
variable {kp : Keypath} (hroot : kp.isRoot = false) (h : ∀ k, .key k ∈ kp.segments → IsPart k)
include hroot

omit h in
theorem text_eq_intercalate : kp.text = ".".intercalate kp.parts := if_neg (by simp [hroot])

include h

theorem dottedParts_text : dottedParts kp.text = kp.parts := by
  have hne : kp.parts ≠ [] := by
    rw [parts, ne_eq, List.map_eq_nil_iff]
    simpa [isRoot] using hroot
  rw [text_eq_intercalate hroot, dottedParts_intercalate hne (isPart_of_mem_parts h)]

theorem trim_text : Text.trim kp.text.toList = kp.text.toList := by
  rw [text_eq_intercalate hroot, trim_intercalate (isPart_of_mem_parts h)]

end

end Keypath

namespace Settings

variable {s : Settings} {name : String} {parts : List String}

theorem target_append_of_internal (h : s.target name = .internal parts) (path : String) :
    s.target (name ++ "." ++ path) = .internal (parts ++ Keypath.dottedParts path) := by
  rw [target, Keypath.dottedParts_append]
  rw [target] at h
  cases hname : Keypath.dottedParts name with
  | nil => exact absurd hname (Keypath.dottedParts_ne_nil name)
  | cons first rest =>
    rw [hname] at h
    simp only [List.cons_append] at h ⊢
    split at h
    · next hself =>
      cases h
      rw [if_pos hself]
    · cases h

theorem target_append_of_external (h : s.target name = .external parts) (path : String) :
    s.target (name ++ "." ++ path) = .external (parts ++ Keypath.dottedParts path) := by
  rw [target, Keypath.dottedParts_append]
  rw [target] at h
  cases hname : Keypath.dottedParts name with
  | nil => exact absurd hname (Keypath.dottedParts_ne_nil name)
  | cons first rest =>
    rw [hname] at h
    simp only [List.cons_append] at h ⊢
    split at h
    · cases h
    · next hself =>
      cases h
      rw [if_neg hself]
      rfl

section
variable {kp : Keypath} (hself : Keypath.IsPart s.selfName) (hroot : kp.isRoot = false)
  (h : ∀ k, .key k ∈ kp.segments → Keypath.IsPart k)
include hself hroot h

theorem target_text : s.target (s.selfName ++ "." ++ kp.text) = .internal kp.parts := by
  rw [target, Keypath.dottedParts_append, hself.dottedParts, Keypath.dottedParts_text hroot h,
    List.singleton_append]
  exact if_pos rfl

/-- A name is written as a reference in braces, if it has no closing brace itself. -/
theorem names_text (hbrace : '\x7d' ∉ (s.selfName ++ "." ++ kp.text).toList) :
    (Template.scan .interpolation ("$\x7b" ++ (s.selfName ++ "." ++ kp.text) ++ "\x7d")).names =
      [s.selfName ++ "." ++ kp.text] := by
  have hname : (s.selfName ++ "." ++ kp.text).toList =
      s.selfName.toList ++ '.' :: kp.text.toList := by simp
  have htrim : Text.trim (s.selfName ++ "." ++ kp.text).toList =
      (s.selfName ++ "." ++ kp.text).toList := by
    rw [hname]
    exact Text.trim_append_cons hself.trim (by decide) (Keypath.trim_text hroot h)
  have hne : ¬ Text.trim (s.selfName ++ "." ++ kp.text).toList = [] := by
    rw [htrim, hname]
    simp
  have hchars : ("$\x7b" ++ (s.selfName ++ "." ++ kp.text) ++ "\x7d").toList =
      '$' :: '\x7b' :: ((s.selfName ++ "." ++ kp.text).toList ++ '\x7d' :: []) := by simp
  rw [Template.scan, hchars, Template.scanInterpolation_reference hbrace, if_neg hne,
    Template.scanInterpolation]
  change [Template.name _] = _
  rw [Template.name, htrim, String.ofList_toList]

end

end Settings
end TypedConfig
