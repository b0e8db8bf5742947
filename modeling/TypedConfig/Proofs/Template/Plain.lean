import TypedConfig.Proofs.Resolution.Equations
import TypedConfig.Proofs.Text.Blanks

/-!
# Texts without references

A text in which no reference opens is a template that asks for no names (`Template.names_of_plain`),
renders to itself (`Template.render_of_plain`) and does not stand for a container
(`Template.soleReference?_of_plain`).
-/

namespace TypedConfig.Template

open Text

theorem hasOpening_of_not_mem {cs : List Char} (h : '$' ∉ cs) : hasOpening cs = false := by
  induction cs with
  | nil => rfl
  | cons c cs ih =>
    rw [List.mem_cons, not_or] at h
    rw [hasOpening]
    · exact ih h.2
    · rintro rest rfl
      exact absurd rfl h.1

theorem hasOpening_append {cs before : List Char} (h : hasOpening cs = true) :
    hasOpening (before ++ cs) = true := by
  induction before with
  | nil => exact h
  | cons c before ih =>
    rw [List.cons_append]
    unfold hasOpening
    split
    · rfl
    · next heq => cases heq; exact ih
    · next heq => cases heq

variable {text : String} (h : hasOpening text.toList = false)
include h

theorem soleReference?_of_plain : soleReference? text = none := by
  obtain ⟨before, after, htext, -⟩ := exists_trim text.toList
  unfold soleReference?
  split
  · next cs htrim =>
    rw [htrim] at htext
    rw [htext, hasOpening_append (by rfl)] at h
    cases h
  · rfl

omit h in
theorem scanInterpolation_of_plain {cs : List Char} (h : hasOpening cs = false) (position : Nat) :
    scanInterpolation position cs = ⟨cs.map .char, none⟩ := by
  induction cs generalizing position with
  | nil => rw [scanInterpolation]; rfl
  | cons c cs ih =>
    have hrest : hasOpening cs = false := by
      cases hcs : hasOpening cs with
      | false => rfl
      | true =>
        rw [← List.singleton_append, hasOpening_append hcs] at h
        cases h
    rw [scanInterpolation, ih hrest]
    · rfl
    · rintro rest rfl rfl
      simp [hasOpening] at h
    · rintro rest rfl rfl
      simp [hasOpening] at h

theorem scan_of_plain : scan .interpolation text = ⟨text.toList.map .char, none⟩ :=
  scanInterpolation_of_plain h 0

theorem names_of_plain : (scan .interpolation text).names = [] := by
  rw [scan_of_plain h, names]
  simp [List.filterMap_map]

omit h in
theorem renderPieces_chars {ε : Type} (lookup : String → Except ε String) (cs : List Char) :
    renderPieces lookup (cs.map .char) = .ok (String.ofList cs) := by
  induction cs with
  | nil => rfl
  | cons c cs ih =>
    rw [List.map_cons, renderPieces, ih]
    change Except.ok (String.singleton c ++ String.ofList cs) = _
    rw [String.singleton_eq_ofList, ← String.ofList_append, List.singleton_append]

theorem render_of_plain {ε : Type} (lookup : String → Except ε String)
    (malformed : Nat → Fault → Except ε String) :
    (scan .interpolation text).render lookup malformed = .ok text := by
  rw [scan_of_plain h, render, renderPieces_chars, String.ofList_toList]
  rfl

end TypedConfig.Template
