import TypedConfig.Proofs.Template.Plain
import TypedConfig.Proofs.Template.Render

/-!
# Writing any text as a template

With a dollar sign more in front of each opening of a reference (`escaped`), a text is a template
for itself: no reference is left in it, and nothing is malformed (`render_escaped`). The dollar
signs in front of a brace may be any number; the last two of them are the escape, and the others
stand for themselves.
-/

namespace TypedConfig.Template

open Text

/-- The text with a dollar sign more in front of each opening. -/
def escapeOpenings : List Char → List Char
  | '$' :: '\x7b' :: cs => '$' :: '$' :: '\x7b' :: escapeOpenings cs
  | c :: cs => c :: escapeOpenings cs
  | [] => []

/-- `escapeOpenings` on strings. -/
def escaped (text : String) : String := String.ofList (escapeOpenings text.toList)

theorem escapeOpenings_cons {c : Char} {cs : List Char}
    (h : ∀ rest, c = '$' → cs ≠ '\x7b' :: rest) :
    escapeOpenings (c :: cs) = c :: escapeOpenings cs := by
  rw [escapeOpenings]
  rintro rest rfl rfl
  exact h rest rfl rfl

/-! ### The openings are what is replaced -/

theorem escapeOpenings_of_plain {cs : List Char} (h : hasOpening cs = false) :
    escapeOpenings cs = cs := by
  induction cs using escapeOpenings.induct with
  | case1 cs => simp [hasOpening] at h
  | case2 c cs hne ih =>
    rw [hasOpening] at h
    · rw [escapeOpenings, ih h]
      exact hne
    · exact hne
  | case3 => rfl

theorem escapeOpenings_append_opening {part : List Char} (h : hasOpening part = false)
    (rest : List Char) : escapeOpenings (part ++ '$' :: '\x7b' :: rest) =
      part ++ '$' :: '$' :: '\x7b' :: escapeOpenings rest := by
  induction part with
  | nil => rw [List.nil_append, escapeOpenings, List.nil_append]
  | cons c part ih =>
    have hpart : hasOpening part = false := by
      cases hopening : hasOpening part with
      | false => rfl
      | true =>
        rw [← List.singleton_append, hasOpening_append hopening] at h
        cases h
    rw [List.cons_append, escapeOpenings_cons, ih hpart, List.cons_append]
    rintro after rfl happend
    cases part with
    | nil => simp at happend
    | cons d part =>
      cases happend
      simp [hasOpening] at h

/-- Between parts without openings, each opening gets the dollar sign. -/
theorem escaped_intercalate {parts : List String}
    (h : ∀ part ∈ parts, hasOpening part.toList = false) :
    escaped ("$\x7b".intercalate parts) = "$$\x7b".intercalate parts := by
  induction parts with
  | nil => rfl
  | cons part parts ih =>
    obtain ⟨hpart, hparts⟩ := List.forall_mem_cons.1 h
    cases parts with
    | nil =>
      rw [String.intercalate_singleton, String.intercalate_singleton, escaped,
        escapeOpenings_of_plain hpart, String.ofList_toList]
    | cons next parts =>
      have hchars : (part ++ "$\x7b" ++ "$\x7b".intercalate (next :: parts)).toList =
          part.toList ++ '$' :: '\x7b' :: ("$\x7b".intercalate (next :: parts)).toList := by
        simp [-String.toList_intercalate]
      rw [String.intercalate_cons_cons, String.intercalate_cons_cons, ← ih hparts, escaped, hchars,
        escapeOpenings_append_opening hpart, escaped, ← String.toList_inj]
      simp [-String.toList_intercalate]

/-! ### The pieces of an escaped text -/

theorem exists_of_escapeOpenings_eq_brace {cs rest : List Char}
    (h : escapeOpenings cs = '\x7b' :: rest) : ∃ after, cs = '\x7b' :: after := by
  induction cs using escapeOpenings.induct with
  | case1 cs => simp [escapeOpenings] at h
  | case2 c cs hne _ =>
    rw [escapeOpenings_cons hne] at h
    cases h
    exact ⟨cs, rfl⟩
  | case3 => simp [escapeOpenings] at h

theorem escapeOpenings_ne_opening (cs rest : List Char) :
    escapeOpenings cs ≠ '$' :: '\x7b' :: rest := by
  induction cs using escapeOpenings.induct with
  | case1 cs => simp [escapeOpenings]
  | case2 c cs hne _ =>
    rw [escapeOpenings_cons hne]
    intro h
    obtain ⟨rfl, hrest⟩ := List.cons_eq_cons.1 h
    obtain ⟨after, rfl⟩ := exists_of_escapeOpenings_eq_brace hrest
    exact hne after rfl rfl
  | case3 => simp [escapeOpenings]

/-- A dollar sign of the text, if no brace follows it, is still a plain character when escapes
follow it. -/
theorem not_opensAt_escapeOpenings {c : Char} {cs : List Char}
    (h : ∀ rest, c = '$' → cs ≠ '\x7b' :: rest) : ¬ OpensAt (c :: escapeOpenings cs) := by
  rintro (⟨rest, heq⟩ | ⟨rest, heq⟩)
  · obtain ⟨rfl, hrest⟩ := List.cons_eq_cons.1 heq
    obtain ⟨after, rfl⟩ := exists_of_escapeOpenings_eq_brace hrest
    exact h after rfl rfl
  · exact escapeOpenings_ne_opening cs rest (List.cons_eq_cons.1 heq).2

theorem exists_consists_escapeOpenings (cs : List Char) : ∃ ps,
    Consists (escapeOpenings cs) ps none ∧ asked ps = [] ∧ splice ps [] = String.ofList cs := by
  induction cs using escapeOpenings.induct with
  | case1 cs ih =>
    obtain ⟨ps, hconsists, hasked, hsplice⟩ := ih
    refine ⟨.escape :: ps, ?_, hasked, ?_⟩
    · rw [escapeOpenings]
      exact .escape hconsists
    · rw [splice, hsplice, ← String.toList_inj]
      simp
  | case2 c cs hne ih =>
    obtain ⟨ps, hconsists, hasked, hsplice⟩ := ih
    refine ⟨.char c :: ps, ?_, hasked, ?_⟩
    · rw [escapeOpenings_cons hne]
      exact .char (not_opensAt_escapeOpenings hne) hconsists
    · rw [splice, hsplice, ← String.toList_inj]
      simp [Char.toString]
  | case3 => exact ⟨[], .nil, rfl, rfl⟩

/-- An escaped text is a template that asks for no name, has no fault and renders to the text,
whatever looking a name up does. -/
theorem render_escaped (text : String) : (scan .interpolation (escaped text)).names = [] ∧
    (scan .interpolation (escaped text)).fault = none ∧
    ∀ (ε σ : Type) (lookup : String → EStateM ε σ String)
      (malformed : Nat → Fault → EStateM ε σ String) (s : σ),
      (scan .interpolation (escaped text)).render lookup malformed s = .ok text s := by
  obtain ⟨ps, hconsists, hasked, hsplice⟩ := exists_consists_escapeOpenings text.toList
  have hscan : scan .interpolation (escaped text) = ⟨ps, none⟩ := by
    rw [escaped, Consists.scan_interpolation (by rwa [String.toList_ofList])]
    rfl
  rw [hscan]
  refine ⟨hasked, rfl, fun ε σ lookup malformed s => ?_⟩
  have hpieces : renderPieces lookup ps s = .ok text s := by
    refine renderPieces_eq_ok.2 ⟨[], ?_, ?_⟩
    · rw [hasked]
      exact .nil s
    · rw [hsplice, String.ofList_toList]
  rw [render]
  exact run_bind_eq_ok.2 ⟨text, s, hpieces, rfl⟩

/-- Of the dollar signs in front of a brace, the last two are the escape. -/
example : escaped "a$$$\x7bb\x7d $" = "a$$$$\x7bb\x7d $" := by decide

end TypedConfig.Template
